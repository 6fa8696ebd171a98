import Relinow.Proof.TransmitSide

/-!
# The payload cache

A retransmission takes its payload from a table of sixteen entries, one for the
whole node, and finds it by the sequence id alone. Every channel numbers its
packets from 0.

So each packet in flight keeps its own payload as long as a new id is in no
entry yet and finds a free one, and an ACK names an id that is in flight on its
own channel, or in no entry. One channel by itself always meets this; two
channels need not.
-/

namespace Relinow

open SlotTable Runs

/-- Every packet in flight has its payload in the cache, and no two share an id. -/
structure CacheInv (node : Node) (history : List Event) : Prop where
  distinct : (cachedSeqs node).Nodup
  nodup : ∀ c channel, node.reliableAt c = some channel → (pendingSeqs channel.reliable).Nodup
  disjoint : ∀ c c' channel channel', node.reliableAt c = some channel →
    node.reliableAt c' = some channel' → c ≠ c' →
    ∀ q ∈ pendingSeqs channel.reliable, q ∉ pendingSeqs channel'.reliable
  cached : ∀ c channel, node.reliableAt c = some channel → ∀ q ∈ pendingSeqs channel.reliable,
    ∃ (i : Fin maxPending) (flags : U8) (payload : List U8), DataFlags flags
      ∧ node.txCache[i] = ⟨true, q, flags, payload⟩
      ∧ allocated history c q = some (flags, payload)

theorem CacheInv.mem_cached {node : Node} {history : List Event} (h : CacheInv node history)
    {c : U8} {channel : ChannelState} (hch : node.reliableAt c = some channel) {q : U16}
    (hq : q ∈ pendingSeqs channel.reliable) : q ∈ cachedSeqs node := by
  obtain ⟨i, flags, payload, _, hi, _⟩ := h.cached c channel hch q hq
  exact mem_keys.mpr ⟨i, by rw [hi], by rw [hi]⟩

/-- Steps that neither take nor release a packet keep the invariant. -/
theorem CacheInv.quiet {node node' : Node} {history log : List Event} (h : CacheInv node history)
    (hpend : ∀ c channel', node'.reliableAt c = some channel' →
      pendingSeqs channel'.reliable = 0 ∨ ∃ channel, node.reliableAt c = some channel
        ∧ pendingSeqs channel.reliable = pendingSeqs channel'.reliable)
    (hcache : node'.txCache = node.txCache) (hlog : ∀ e ∈ log, e.NoAssign) :
    CacheInv node' (history ++ log) := by
  -- a packet in flight afterwards was in flight before
  have hback : ∀ c channel', node'.reliableAt c = some channel' →
      ∀ q ∈ pendingSeqs channel'.reliable, ∃ channel, node.reliableAt c = some channel
        ∧ q ∈ pendingSeqs channel.reliable := by
    intro c channel' hch' q hq
    rcases hpend c channel' hch' with h0 | ⟨channel, hch, heq⟩
    · rw [h0] at hq
      exact absurd hq (Multiset.notMem_zero q)
    · exact ⟨channel, hch, heq ▸ hq⟩
  refine ⟨?_, ?_, ?_, ?_⟩
  · unfold cachedSeqs
    rw [hcache]
    exact h.distinct
  · intro c channel' hch'
    rcases hpend c channel' hch' with h0 | ⟨channel, hch, heq⟩
    · rw [h0]
      exact Multiset.nodup_zero
    · exact heq ▸ h.nodup c channel hch
  · intro c c' a' b' ha' hb' hne q hq hq'
    obtain ⟨a, ha, hqa⟩ := hback c a' ha' q hq
    obtain ⟨b, hb, hqb⟩ := hback c' b' hb' q hq'
    exact h.disjoint c c' a b ha hb hne q hqa hqb
  · intro c channel' hch' q hq
    obtain ⟨channel, hch, hqc⟩ := hback c channel' hch' q hq
    obtain ⟨i, flags, payload, hf, hi, ha⟩ := h.cached c channel hch q hqc
    exact ⟨i, flags, payload, hf, by rw [hcache]; exact hi, by rw [allocated_append hlog]; exact ha⟩

theorem CacheInv.txQuiet {node node' : Node} {history log : List Event}
    (h : CacheInv node history) (hq : TxQuiet node node') (hlog : ∀ e ∈ log, e.NoAssign) :
    CacheInv node' (history ++ log) := by
  refine h.quiet (fun c channel' hch' => Or.inr ?_) hq.cache hlog
  obtain ⟨channel, hch, _, hks⟩ := hq.before hch'
  exact ⟨channel, hch, hks⟩

/-- **A packet leaves its slot and the cache together.** -/
theorem CacheInv.release {node node' : Node} {history log : List Event} {c : U8} {q : U16}
    {channel channel' : ChannelState} (h : CacheInv node history)
    (hch : node.reliableAt c = some channel)
    (hks : pendingSeqs channel.reliable = q ::ₘ pendingSeqs channel'.reliable)
    (hrel : node'.reliableAt = Function.update node.reliableAt c (some channel'))
    (hcache : node'.txCache = (txCacheRemove node q).txCache)
    (hlog : ∀ e ∈ log, e.NoAssign) : CacheInv node' (history ++ log) := by
  have hnd := h.nodup c channel hch
  rw [hks, Multiset.nodup_cons] at hnd
  -- what is in flight afterwards was in flight before, and has another id
  have hback : ∀ d b', node'.reliableAt d = some b' → ∀ x ∈ pendingSeqs b'.reliable,
      x ≠ q ∧ ∃ b, node.reliableAt d = some b ∧ x ∈ pendingSeqs b.reliable := by
    intro d b' hb' x hx
    rw [hrel] at hb'
    by_cases hd : d = c
    · subst hd
      rw [Function.update_self] at hb'
      obtain rfl := Option.some.inj hb'
      refine ⟨fun he => hnd.1 (he ▸ hx), channel, hch, ?_⟩
      rw [hks]
      exact Multiset.mem_cons_of_mem hx
    · rw [Function.update_of_ne hd] at hb'
      refine ⟨?_, b', hb', hx⟩
      rintro rfl
      exact h.disjoint c d channel b' hch hb' (Ne.symm hd) x
        (by rw [hks]; exact Multiset.mem_cons_self _ _) hx
  obtain ⟨i, flags, payload, _, hi, _⟩ := h.cached c channel hch q
    (by rw [hks]; exact Multiset.mem_cons_self _ _)
  have hdistinct : (keys TxCache.inUse TxCache.seqId node.txCache).Nodup := h.distinct
  have hremove : (txCacheRemove node q).txCache
      = node.txCache.put i { node.txCache[i] with inUse := false } := by
    rcases txCacheRemove_cases node q with ⟨hno, _⟩ | ⟨j, hj, hjq, heq⟩
    · exact absurd (mem_keys.mpr ⟨i, by rw [hi], by rw [hi]⟩) hno
    · have hij : i = j := eq_of_key_eq hdistinct (by rw [hi]) hj (by rw [hi, hjq])
      rw [heq, hij]
  refine ⟨?_, ?_, ?_, ?_⟩
  · unfold cachedSeqs
    rw [hcache, hremove]
    have hu : node.txCache[i].inUse = true := by rw [hi]
    rw [keys_release TxCache.seqId hu (x := { node.txCache[i] with inUse := false }) rfl,
      Multiset.nodup_cons] at hdistinct
    exact hdistinct.2
  · intro d b' hb'
    rw [hrel] at hb'
    by_cases hd : d = c
    · subst hd
      rw [Function.update_self] at hb'
      obtain rfl := Option.some.inj hb'
      exact hnd.2
    · rw [Function.update_of_ne hd] at hb'
      exact h.nodup d b' hb'
  · intro d d' a' b' ha' hb' hne x hx hx'
    obtain ⟨_, a, ha, hxa⟩ := hback d a' ha' x hx
    obtain ⟨_, b, hb, hxb⟩ := hback d' b' hb' x hx'
    exact h.disjoint d d' a b ha hb hne x hxa hxb
  · intro d b' hb' x hx
    obtain ⟨hxq, b, hb, hxb⟩ := hback d b' hb' x hx
    obtain ⟨j, flags', payload', hf, hj, ha⟩ := h.cached d b hb x hxb
    have hij : i ≠ j := by
      rintro rfl
      rw [hi] at hj
      exact hxq (congrArg TxCache.seqId hj).symm
    exact ⟨j, flags', payload', hf, by rw [hcache, hremove, put_ne hij]; exact hj,
      by rw [allocated_append hlog]; exact ha⟩

/-- **A packet takes its slot and a cache entry together**, under an id that is in none. -/
theorem CacheInv.place {k k' : Call} {history : List Event} {c flags : U8} {track : Bool}
    {payload : List U8} {channel channel' : ChannelState}
    (h : CacheInv k.node (history ++ k.log)) (hflags : DataFlags flags)
    (hp : Placed k k' c flags track payload channel channel')
    (hnew : channel.reliable.nextTxSeq ∉ cachedSeqs k.node) :
    CacheInv k'.node (history ++ k'.log) ∧ cachedSeqs k'.node
      = channel.reliable.nextTxSeq ::ₘ cachedSeqs k.node := by
  obtain ⟨i, hi, hset⟩ := hp.cache
  obtain ⟨rest, hlog, hrest⟩ := hp.log
  have hkeys : cachedSeqs k'.node = channel.reliable.nextTxSeq ::ₘ cachedSeqs k.node := by
    unfold cachedSeqs
    rw [hset]
    exact keys_fill _ hi rfl
  have halloc : ∀ d x, allocated (history ++ k'.log) d x
      = if c = d ∧ channel.reliable.nextTxSeq = x then some (flags, payload)
        else allocated (history ++ k.log) d x := by
    intro d x
    rw [hlog, List.append_cons, ← List.append_assoc, ← List.append_assoc, allocated_append hrest,
      allocated_assign]
  refine ⟨⟨?_, ?_, ?_, ?_⟩, hkeys⟩
  · rw [hkeys, Multiset.nodup_cons]
    exact ⟨hnew, h.distinct⟩
  · intro d b' hb'
    rw [hp.after] at hb'
    by_cases hd : d = c
    · subst hd
      rw [Function.update_self] at hb'
      obtain rfl := Option.some.inj hb'
      rw [hp.pending, Multiset.nodup_cons]
      exact ⟨fun hq => hnew (h.mem_cached hp.before hq), h.nodup d channel hp.before⟩
    · rw [Function.update_of_ne hd] at hb'
      exact h.nodup d b' hb'
  · intro d d' a' b' ha' hb' hne x hx hx'
    -- the new id is in flight nowhere else, and old ids are as before
    have hold : ∀ d b', k'.node.reliableAt d = some b' → x ∈ pendingSeqs b'.reliable →
        (d = c ∧ x = channel.reliable.nextTxSeq)
        ∨ ∃ b, k.node.reliableAt d = some b ∧ x ∈ pendingSeqs b.reliable := by
      intro d b' hb' hx
      rw [hp.after] at hb'
      by_cases hd : d = c
      · subst hd
        rw [Function.update_self] at hb'
        obtain rfl := Option.some.inj hb'
        rw [hp.pending, Multiset.mem_cons] at hx
        rcases hx with hx | hx
        · exact Or.inl ⟨rfl, hx⟩
        · exact Or.inr ⟨channel, hp.before, hx⟩
      · rw [Function.update_of_ne hd] at hb'
        exact Or.inr ⟨b', hb', hx⟩
    rcases hold d a' ha' hx with ⟨hd, hxq⟩ | ⟨a, ha, hxa⟩ <;>
      rcases hold d' b' hb' hx' with ⟨hd', hxq'⟩ | ⟨b, hb, hxb⟩
    · exact hne (hd.trans hd'.symm)
    · exact hnew (hxq ▸ h.mem_cached hb hxb)
    · exact hnew (hxq' ▸ h.mem_cached ha hxa)
    · exact h.disjoint d d' a b ha hb hne x hxa hxb
  · intro d b' hb' x hx
    rw [hp.after] at hb'
    rw [halloc]
    have hkept : ∀ b, k.node.reliableAt d = some b → x ∈ pendingSeqs b.reliable →
        ∃ (j : Fin maxPending) (flags' : U8) (payload' : List U8), DataFlags flags'
          ∧ k'.node.txCache[j] = ⟨true, x, flags', payload'⟩
          ∧ (if c = d ∧ channel.reliable.nextTxSeq = x then some (flags, payload)
              else allocated (history ++ k.log) d x) = some (flags', payload') := by
      intro b hb hxb
      obtain ⟨j, flags', payload', hf, hj, ha⟩ := h.cached d b hb x hxb
      have hij : i ≠ j := by
        rintro rfl
        rw [hj] at hi
        exact absurd hi (by simp)
      have hxq : ¬ (c = d ∧ channel.reliable.nextTxSeq = x) :=
        fun he => hnew (he.2 ▸ h.mem_cached hb hxb)
      exact ⟨j, flags', payload', hf, by rw [hset, put_ne hij]; exact hj,
        by rw [if_neg hxq]; exact ha⟩
    by_cases hd : d = c
    · subst hd
      rw [Function.update_self] at hb'
      obtain rfl := Option.some.inj hb'
      rw [hp.pending, Multiset.mem_cons] at hx
      rcases hx with rfl | hx
      · exact ⟨i, flags, payload, hflags, by rw [hset, put_self], if_pos ⟨rfl, rfl⟩⟩
      · exact hkept channel hp.before hx
    · rw [Function.update_of_ne hd] at hb'
      exact hkept b' hb' hx

/-! ## Sending -/

/-- The fragment loop after `j` of the `n` rounds it has ids for: the ids from `q + j` on are in
no entry yet, and there is an entry for each. -/
structure Filling (history : List Event) (c : U8) (q : U16) (n j : Nat) (k : Call)
    (remaining : List U8) (channel : ChannelState) : Prop where
  inv : CacheInv k.node (history ++ k.log)
  pos : 0 < k.node.maxPayload.toNat
  at_channel : k.node.reliableAt c = some channel
  next : channel.reliable.nextTxSeq = q + BitVec.ofNat 16 j
  rounds : j + min (framesLeft remaining.length k.node.maxPayload.toNat)
    (free Pending.inUse channel.reliable.pending) = n
  few : n ≤ maxPending
  fresh : ∀ m, j ≤ m → m < n → q + BitVec.ofNat 16 m ∉ cachedSeqs k.node
  room : n ≤ j + free TxCache.inUse k.node.txCache

/-- **A frame of a send that fills is placed**, unless its channel has no slot left. -/
theorem Filling.transmit {history : List Event} {c flags : U8} {q : U16} {n j : Nat} {k : Call}
    {remaining : List U8} {channel : ChannelState}
    (h : Filling history c q n j k remaining channel) (hne : remaining ≠ []) (radio : Radio)
    (track : Bool) (part : List U8) (now : U32) (hflags : DataFlags flags) :
    transmitNew radio k c flags track part now = (.refused, k)
    ∨ (((transmitNew radio k c flags track part now).1 = .done
        ∨ ∃ e, (transmitNew radio k c flags track part now).1 = .radio e ∧ e ≠ .ok)
      ∧ j < n ∧ ∃ channel', Placed k (transmitNew radio k c flags track part now).2 c flags track
          part channel channel') := by
  have hlen : 0 < remaining.length := List.length_pos_iff.mpr hne
  have hsub := framesLeft_sub h.pos hlen
  have hrounds := h.rounds
  have hfree := card_live_add_free Pending.inUse channel.reliable.pending
  rw [← card_pendingSeqs] at hfree
  rcases transmitNew_tx radio k c flags track part now hflags.lt with
    ⟨heq, _⟩ | ⟨_, hfull, _, _, ch, _, ha⟩ | ⟨hout, ch, channel', hp, -⟩
  · exact Or.inl heq
  · obtain rfl := Option.some.inj (h.at_channel.symm.trans ha.before)
    have hroom := h.room
    have hcard := ha.card_lt
    omega
  · obtain rfl := Option.some.inj (h.at_channel.symm.trans hp.before)
    refine Or.inr ⟨hout, ?_, channel', hp⟩
    have hcard := hp.card_lt
    omega

theorem Filling.round {history : List Event} {c flags : U8} {q : U16} {n j : Nat} {k k' : Call}
    {remaining part : List U8} {channel channel' : ChannelState}
    (h : Filling history c q n j k remaining channel) (hne : remaining ≠ [])
    (hflags : DataFlags flags) (hj : j < n)
    (hp : Placed k k' c flags true part channel channel') :
    Filling history c q n (j + 1) k'
      (remaining.drop (min k.node.maxPayload.toNat remaining.length)) channel' := by
  have hlen : 0 < remaining.length := List.length_pos_iff.mpr hne
  have hsub := framesLeft_sub h.pos hlen
  have hrounds := h.rounds
  have hfew := h.few
  have hmax : maxPending = 16 := rfl
  obtain ⟨hinv, hkeys⟩ := h.inv.place hflags hp (by rw [h.next]; exact h.fresh j (Nat.le_refl j) hj)
  obtain ⟨i, hi, hset⟩ := hp.cache
  refine ⟨hinv, by rw [hp.maxPayload]; exact h.pos, by rw [hp.after, Function.update_self], ?_, ?_,
    h.few, ?_, ?_⟩
  · rw [hp.next, h.next]
    unfold seqNext
    rw [BitVec.add_assoc, ← BitVec.ofNat_add]
  · have hfree := card_live_add_free Pending.inUse channel.reliable.pending
    have hfree' := card_live_add_free Pending.inUse channel'.reliable.pending
    rw [← card_pendingSeqs] at hfree hfree'
    rw [hp.pending, Multiset.card_cons] at hfree'
    rw [List.length_drop, hp.maxPayload]
    omega
  · intro m hjm hmn hmem
    rw [hkeys, Multiset.mem_cons, h.next] at hmem
    rcases hmem with heq | hmem
    · -- two ids of one message differ, there being at most sixteen
      have hval := congrArg BitVec.toNat ((BitVec.add_right_inj q).mp heq)
      rw [BitVec.toNat_ofNat, BitVec.toNat_ofNat, Nat.mod_eq_of_lt (by omega),
        Nat.mod_eq_of_lt (by omega)] at hval
      omega
    · exact h.fresh m (by omega) hmn hmem
  · have hroom := h.room
    rw [hset]
    have := free_fill TxCache.inUse hi
      (x := ⟨true, channel.reliable.nextTxSeq, flags, part⟩) rfl
    omega

theorem Filling.sendFragments {history : List Event} {c : U8} {q : U16} {n : Nat} {k : Call}
    {remaining : List U8} {channel : ChannelState} (radio : Radio) (now : U32)
    (h : Filling history c q n 0 k remaining channel) :
    CacheInv (sendFragments radio c now remaining.length k remaining).2.node
      (history ++ (sendFragments radio c now remaining.length k remaining).2.log) := by
  refine sendFragments_rule
    (I := fun k remaining => ∃ j channel, Filling history c q n j k remaining channel)
    (Q := fun k => CacheInv k.node (history ++ k.log))
    (fun k remaining ⟨j, channel, h⟩ => h.pos) (fun k ⟨j, channel, h⟩ => h.inv) ?_ _ k remaining
    (Nat.le_refl _) ⟨0, channel, h⟩
  rintro k remaining flags ⟨j, channel, h⟩ hne hflags
  rcases h.transmit hne radio true
      (remaining.take (min k.node.maxPayload.toNat remaining.length)) now (Or.inr hflags) with
    heq | ⟨hout, hj, channel', hp⟩
  · rw [heq]
    -- the engine refused: at most the lock opens
    have hunlock : CacheInv (unlockEmpty k.node) (history ++ k.log ++ []) :=
      h.inv.quiet (fun d b' hb' => Or.inr ⟨b', by
          unfold unlockEmpty at hb'
          split at hb' <;> exact hb', rfl⟩)
        (by unfold unlockEmpty; split <;> rfl) (by simp)
    rw [List.append_nil] at hunlock
    exact hunlock
  · have hround := h.round hne (Or.inr hflags) hj hp
    revert hout hround
    generalize transmitNew radio k c flags true _ now = r
    obtain ⟨out, k'⟩ := r
    rintro (rfl | ⟨e, rfl, _⟩) hround
    · exact ⟨j + 1, channel', hround⟩
    · exact hround.inv

/-- The send passes the checks `relinow_send_reliable` makes before it takes an id. -/
def admits (node : Node) (channel : ChannelState) (payload : List U8) : Bool :=
  let count := fragmentCount payload.length node.maxPayload.toNat
  !payload.isEmpty && !node.fragmentedTxActive
    && (decide (payload.length ≤ node.maxPayload.toNat)
      || (decide (count ≤ maxPending) && decide (count ≤ countFreePending channel)
        && decide (count ≤ countFreeTxCache node)))

/-- The ids a send takes: one for each frame, as long as there are pending slots. -/
def takenIds (node : Node) (c : U8) (payload : List U8) : List U16 :=
  match node.reliableAt c with
  | none => []
  | some channel =>
      if admits node channel payload then
        (List.range (min (framesLeft payload.length node.maxPayload.toNat)
          (countFreePending channel))).map fun m => channel.reliable.nextTxSeq + BitVec.ofNat 16 m
      else []

/-- A send takes ids that are in no entry of the cache and finds a free entry for each; an ACK
names an id in flight on its own channel, or in no entry. -/
def KeepsPayloads (w : NodeRun) (a : ApiStep) : Prop :=
  match a.call with
  | .sendReliable c payload _ =>
      (takenIds w.node c payload).length ≤ countFreeTxCache w.node
        ∧ ∀ q ∈ takenIds w.node c payload, q ∉ cachedSeqs w.node
  | .onReceive src data _ =>
      match w.node.accepted src data with
      | none => True
      | some (header, channel) => header.type = typeAck →
          header.ackId ∈ pendingSeqs channel.reliable ∨ header.ackId ∉ cachedSeqs w.node
  | _ => True

instance (w : NodeRun) (a : ApiStep) : Decidable (KeepsPayloads w a) := by
  unfold KeepsPayloads
  exact match a.call with
    | .sendReliable c payload _ => by
        -- by the list of ids, not by all ids there are
        have : Decidable (∀ q ∈ takenIds w.node c payload, q ∉ cachedSeqs w.node) :=
          List.decidableBAll _ _
        dsimp only
        infer_instance
    | .onReceive src data _ => by
        dsimp only
        exact match w.node.accepted src data with
          | none => instDecidableTrue
          | some (_, _) => inferInstance
    | .openChannel .. | .sendUnreliable .. | .sendPriority .. | .poll _ => instDecidableTrue

/-- A send that passes the checks fills. -/
theorem filling_start {w : NodeRun} {c : U8} {payload : List U8} {channel : ChannelState}
    (node : Node) (h : CacheInv w.node w.history) (hch : w.node.reliableAt c = some channel)
    (hadm : admits w.node channel payload = true) (hpos : 0 < w.node.maxPayload.toNat)
    (hroom : (takenIds w.node c payload).length ≤ countFreeTxCache w.node)
    (hfresh : ∀ q ∈ takenIds w.node c payload, q ∉ cachedSeqs w.node)
    (hrel : node.reliableAt = w.node.reliableAt) (hcache : node.txCache = w.node.txCache)
    (hmp : node.maxPayload = w.node.maxPayload) :
    Filling w.history c channel.reliable.nextTxSeq
      (min (framesLeft payload.length w.node.maxPayload.toNat) (countFreePending channel)) 0
      (Call.start node) payload channel := by
  -- what the guard says of the ids the message takes
  unfold takenIds at hroom hfresh
  rw [hch] at hroom hfresh
  dsimp only at hroom hfresh
  rw [if_pos hadm] at hroom hfresh
  rw [List.length_map, List.length_range] at hroom
  refine ⟨?_, by rw [← hmp] at hpos; exact hpos, by rw [← hrel] at hch; exact hch,
    (BitVec.add_zero _).symm, ?_, ?_, ?_, ?_⟩
  · exact h.quiet (fun d b' hb' => Or.inr ⟨b', by rw [← hrel]; exact hb', rfl⟩) hcache
      (by simp [Call.start])
  · show 0 + min (framesLeft payload.length node.maxPayload.toNat) (countFreePending channel) = _
    rw [hmp, Nat.zero_add]
  · refine Nat.le_trans (Nat.min_le_right _ _) ?_
    have := card_live_add_free Pending.inUse channel.reliable.pending
    show free Pending.inUse channel.reliable.pending ≤ maxPending
    omega
  · intro m _ hm
    have := hfresh _ (List.mem_map.mpr ⟨m, List.mem_range.mpr hm, rfl⟩)
    unfold cachedSeqs at this ⊢
    show _ ∉ keys TxCache.inUse TxCache.seqId node.txCache
    rw [hcache]
    exact this
  · show _ ≤ 0 + free TxCache.inUse node.txCache
    rw [hcache, Nat.zero_add]
    exact hroom

theorem CacheInv.sendReliable {w : NodeRun} (h : CacheInv w.node w.history)
    (hmp : 0 < w.node.maxPayload.toNat) (radio : Radio) (c : U8) (payload : List U8) (now : U32)
    (hroom : (takenIds w.node c payload).length ≤ countFreeTxCache w.node)
    (hfresh : ∀ q ∈ takenIds w.node c payload, q ∉ cachedSeqs w.node) :
    CacheInv (Relinow.sendReliable radio w.node c payload now).2.node
      (w.history ++ (Relinow.sendReliable radio w.node c payload now).2.log) := by
  rcases sendReliable_cases radio w.node c payload now with ⟨_, heq⟩ |
    ⟨channel, hch, hne, hact, ⟨hlen, heq⟩ | ⟨hlen, _, hcount, hslots, hcache, heq⟩⟩
  · rw [heq]
    exact h.txQuiet (TxQuiet.refl _) (by simp [Call.start])
  · have hfill := filling_start w.node h hch
      (by simp [admits, hne, hact, hlen]) hmp hroom hfresh rfl rfl rfl
    rw [heq]
    rcases hfill.transmit hne radio false payload now (Or.inl rfl) with
      heq' | ⟨_, hj, channel', hp⟩
    · dsimp only
      rw [heq']
      exact hfill.inv
    · exact (hfill.inv.place (Or.inl rfl) hp
        (by rw [hfill.next]; exact hfill.fresh 0 (Nat.le_refl 0) hj)).1
  · have hfill := filling_start
      { w.node with fragmentedTxActive := true, fragmentedTxSeq := [] } h hch
      (by simp [admits, hne, hact, hcount, hslots, hcache]) hmp hroom hfresh rfl rfl rfl
    rw [heq]
    exact hfill.sendFragments radio now

/-! ## The other calls -/

theorem CacheInv.onReceive {w : NodeRun} (h : CacheInv w.node w.history) (radio : Radio)
    (src : Mac) (data : List U8) (now : U32)
    (hguard : ∀ header channel, w.node.accepted src data = some (header, channel) →
      header.type = typeAck →
        header.ackId ∈ pendingSeqs channel.reliable ∨ header.ackId ∉ cachedSeqs w.node) :
    CacheInv (Relinow.onReceive radio w.node src data now).2.node
      (w.history ++ (Relinow.onReceive radio w.node src data now).2.log) := by
  rcases onReceive_tx radio w.node src data now with ⟨hq, hlog⟩ |
    ⟨header, channel, channel', hacc, htype, hctx, hrel, hcache, _, _, hlog⟩
  · exact h.txQuiet hq hlog
  · have hno : ∀ e ∈ (Relinow.onReceive radio w.node src data now).2.log, e.NoAssign := by
      rw [hlog]
      simp
    rcases reliableOnAck_cases channel.reliable header.ackId now with ⟨hout, heq⟩ |
      ⟨ctx', heq, _, hks⟩ <;> rw [heq] at hctx
    · -- the ACK names nothing on its channel, so it names no entry
      have hnone := (hguard header channel hacc.accepted htype).resolve_left hout
      refine h.quiet ?_ ?_ hno
      · intro d b' hb'
        rw [hrel] at hb'
        by_cases hd : d = header.channelId
        · subst hd
          rw [Function.update_self] at hb'
          obtain rfl := Option.some.inj hb'
          exact Or.inr ⟨channel, hacc.at_channel, by rw [hctx]⟩
        · rw [Function.update_of_ne hd] at hb'
          exact Or.inr ⟨b', hb', rfl⟩
      · rw [hcache]
        rcases txCacheRemove_cases w.node header.ackId with ⟨_, heq'⟩ | ⟨i, hi, hiq, _⟩
        · rw [heq']
        · exact absurd (mem_keys.mpr ⟨i, hi, hiq⟩) hnone
    · exact h.release hacc.at_channel (by rw [hctx]; exact hks) hrel hcache hno

theorem CacheInv.poll {w : NodeRun} (h : CacheInv w.node w.history) (radio : Radio) (now : U32) :
    CacheInv (Relinow.poll radio w.node now).2.node
      (w.history ++ (Relinow.poll radio w.node now).2.log) := by
  obtain ⟨hlog, hq | ⟨c, channel, channel', i, _, hch, _, hks, _, hrel, hcache, _, _⟩⟩ :=
    poll_tx radio w.node now
  · exact h.txQuiet hq hlog
  · exact h.release hch hks hrel hcache hlog

/-- The invariant of a run: the cache, and a positive payload limit. -/
def CacheRunInv (w : NodeRun) : Prop :=
  CacheInv w.node w.history ∧ 0 < w.node.maxPayload.toNat

/-- **One call keeps the invariant.** Polls need no condition. -/
theorem cacheInv_step (w : NodeRun) (a : ApiStep) (h : CacheRunInv w) (hguard : KeepsPayloads w a) :
    CacheRunInv (w.step a) := by
  obtain ⟨hinv, hpos⟩ := h
  refine ⟨?_, by rw [(sameConfig_step w a).maxPayload]; exact hpos⟩
  obtain ⟨radio, call⟩ := a
  unfold NodeRun.step
  cases call with
  | openChannel c mode priority =>
      show CacheInv (Relinow.openChannel w.node c mode priority).2 (w.history ++ [])
      rcases openChannel_tx w.node c mode priority with hq | ⟨fresh, _, hempty, hrel, hcache, _, _⟩
      · exact hinv.txQuiet hq (by simp)
      · -- a new channel has nothing in flight
        refine hinv.quiet (fun d b' hb' => ?_) hcache (by simp)
        rw [hrel] at hb'
        by_cases hd : d = c
        · subst hd
          rw [Function.update_self] at hb'
          obtain rfl := Option.some.inj hb'
          exact Or.inl hempty
        · rw [Function.update_of_ne hd] at hb'
          exact Or.inr ⟨b', hb', rfl⟩
  | sendReliable c payload now => exact hinv.sendReliable hpos radio c payload now hguard.1 hguard.2
  | sendUnreliable c payload =>
      have hq := sendUnreliable_quiet radio w.node c payload
      exact hinv.txQuiet hq.txQuiet hq.noAssign
  | sendPriority c payload =>
      have hq := sendPriority_quiet radio w.node c payload
      exact hinv.txQuiet hq.txQuiet hq.noAssign
  | onReceive src data now =>
      refine hinv.onReceive radio src data now fun header channel hacc => ?_
      unfold KeepsPayloads at hguard
      dsimp only at hguard
      rw [hacc] at hguard
      exact hguard
  | poll now => exact hinv.poll radio now

/-! ## Whole runs -/

/-- A poll that reports a retransmission has sent the frame once more, with the flags and the
payload its id was given. -/
def RepeatsFrames (w : NodeRun) : Prop :=
  ∀ (radio : Radio) (now : U32) (c : U8) (q : U16),
    pollReport radio w.node now = some (c, ⟨.retransmit, q⟩) →
    .txEvent .retransmit q ∈ (poll radio w.node now).2.log →
    ∃ flags payload frame, allocated w.history c q = some (flags, payload)
      ∧ .sent w.node.peerMac frame ∈ (poll radio w.node now).2.log
      ∧ FrameOf frame (dataHeader c flags q payload) payload

/-- A packet in flight whose payload is cached is repeated faithfully. -/
theorem CacheInv.repeats {w : NodeRun} (h : CacheInv w.node w.history) : RepeatsFrames w := by
  intro radio now c q hreport hevent
  obtain ⟨node₁, hnode₁, hcases⟩ := poll_cases radio w.node now
  have hre : TxQuiet w.node node₁ := hnode₁ ▸ pollReassembly_tx w.node now
  have hmac : SameConfig w.node node₁ := hnode₁ ▸ pollReassembly_sameConfig w.node now
  rcases hcases with ⟨hnone, _⟩ | ⟨k, d, channel, _, i, state', hk, _, hch, hi, _, _, _, hrep, heq⟩
  · rw [hnone] at hreport
    exact absurd hreport (by simp)
  · rw [hrep] at hreport
    obtain ⟨rfl, htx⟩ := Prod.mk.inj (Option.some.inj hreport)
    rw [htx] at heq
    -- the packet reported is one in flight, so its payload is cached
    have hq : q ∈ pendingSeqs channel.reliable := by
      rcases reliablePoll_cases channel.reliable now with ⟨hpoll, _⟩ |
        ⟨i', ctx', hi', _, ⟨_, hpoll, _⟩ | ⟨_, hpoll, hlive, hks⟩⟩
      · rw [hpoll] at htx
        exact absurd (congrArg TxResult.event htx) (by simp)
      · rw [hpoll] at htx
        exact absurd (congrArg TxResult.event htx) (by simp)
      · rw [hpoll] at htx
        have hexp := firstIdx_sat hi'
        unfold Pending.expired at hexp
        rw [Bool.and_eq_true] at hexp
        exact mem_keys.mpr ⟨i', hexp.1, congrArg TxResult.seqId htx⟩
    obtain ⟨channel₀, hch₀, _, hks₀⟩ := hre.before hch
    obtain ⟨j, flags, payload, hf, hj, halloc⟩ := h.cached d channel₀ hch₀ q (hks₀ ▸ hq)
    have hcache : k.node.txCache = w.node.txCache := hk.txQuiet.cache.trans hre.cache
    have hfind : txCacheFind { k.node with state := state' } q = some j := by
      unfold txCacheFind
      have hidx := keyIdx_eq TxCache.inUse TxCache.seqId h.distinct (i := j) (by rw [hj])
      rw [hj] at hidx
      show firstIdx _ k.node.txCache = some j
      rw [hcache]
      exact hidx
    have hslot : k.node.txCache[j] = ⟨true, q, flags, payload⟩ := by
      rw [← hj]
      simp only [hcache]
    refine ⟨flags, payload, ?_⟩
    rw [heq] at hevent ⊢
    unfold pollEvent at hevent ⊢
    dsimp only [Call.setNode] at hevent ⊢
    rw [hfind] at hevent ⊢
    dsimp only at hevent ⊢
    rw [hslot] at hevent ⊢
    dsimp only at hevent ⊢
    rcases sendFrame_cases radio ⟨{ k.node with state := state' }, k.attempts, k.log⟩ modeReliable d
        typeData flags q 0#16 payload hf.lt with ⟨e, attempts, he, hsend⟩ |
      ⟨frame, attempts, hframe, hsend⟩
    · -- a frame the radio refused is not reported
      rw [hsend, if_pos he] at hevent
      exact absurd (hk.log _ hevent) (by simp [Event.Background])
    · rw [hsend, if_neg (by simp)]
      refine ⟨frame, halloc, ?_, hframe⟩
      have hpeer : k.node.peerMac = w.node.peerMac :=
        hk.sameConfig.peerMac.trans hmac.peerMac
      unfold raiseTxEvent
      rw [← hpeer]
      split
      · exact List.mem_append_left _ (List.mem_append_right _ (List.mem_singleton_self _))
      · exact List.mem_append_right _ (List.mem_singleton_self _)

/-- **A retransmission repeats the original frame**, in every run that keeps the payloads of
different channels apart. -/
theorem retransmit_repeats {node₀ node : Node} {cfg : Config} (hinit : init node₀ cfg = (.ok, node))
    (as : List ApiStep) (hkeeps : Along NodeRun.step KeepsPayloads ⟨node, []⟩ as) :
    RepeatsFrames (run NodeRun.step ⟨node, []⟩ as) := by
  have hidle : ∀ c channel, node.reliableAt c = some channel →
      pendingSeqs channel.reliable = 0 := by
    intro c channel hch
    rw [(init_reliableAt hinit hch).2.1, pendingSeqs_init]
  have hstart : CacheRunInv ⟨node, []⟩ := by
    obtain ⟨state, channel, rfl, hpos, _⟩ := init_ok hinit
    refine ⟨⟨Multiset.nodup_zero, ?_, ?_, ?_⟩, hpos⟩
    · intro c channel hch
      rw [hidle c channel hch]
      exact Multiset.nodup_zero
    · intro c c' a b ha _ _ q hq
      rw [hidle c a ha] at hq
      exact absurd hq (Multiset.notMem_zero q)
    · intro c a ha q hq
      rw [hidle c a ha] at hq
      exact absurd hq (Multiset.notMem_zero q)
  exact (invariant cacheInv_step hstart hkeeps).1.repeats

/-- The default configuration, with the transmit callback set. -/
def eventConfig : Config := { defaultConfig with onTxEvent := true }

def eventNode : Node := (init Node.zero eventConfig).2

/-- A second channel is opened; each channel sends one packet, and the first is acknowledged. -/
def openTwo : ApiStep := ⟨Radio.up, .openChannel 2#8 modeReliable 0#8⟩
def sendOne : ApiStep := ⟨Radio.up, .sendReliable 1#8 [10#8] 0#32⟩
def sendTwo : ApiStep := ⟨Radio.up, .sendReliable 2#8 [20#8] 0#32⟩
def ackOne : ApiStep :=
  ⟨Radio.up, .onReceive eventNode.peerMac
    [0x11#8, 0x20#8, 0#8, 0#8, 0#8, 0#8, 1#8, 0#8, 0#8] 10#32⟩

def afterOpen : NodeRun := NodeRun.step ⟨eventNode, []⟩ openTwo
def afterOne : NodeRun := afterOpen.step sendOne
def afterAck : NodeRun := afterOne.step ackOne

/-- The first packet is acknowledged before the second channel sends its own. -/
def inTurn : NodeRun := afterAck.step sendTwo

theorem retransmit_repeats_inTurn :
    RepeatsFrames inTurn
      ∧ pollReport Radio.up inTurn.node 1000#32 = some (2#8, ⟨.retransmit, 0#16⟩) := by
  have hkeeps :
      Along NodeRun.step KeepsPayloads ⟨eventNode, []⟩ [openTwo, sendOne, ackOne, sendTwo] :=
    Along.cons trivial <| Along.cons (show KeepsPayloads afterOpen sendOne by decide +kernel) <|
      Along.cons (show KeepsPayloads afterOne ackOne by decide +kernel) <|
      Along.cons (show KeepsPayloads afterAck sendTwo by decide +kernel) trivial
  have hinit : init Node.zero eventConfig = (.ok, eventNode) := Prod.ext (by decide +kernel) rfl
  have h := retransmit_repeats hinit _ hkeeps
  simp only [run_cons, run_nil] at h
  exact ⟨h, by decide +kernel⟩

/-- Both channels have their packet 0 in flight. -/
def sideBySide : List ApiStep :=
  [⟨Radio.up, .openChannel 2#8 modeReliable 0#8⟩, ⟨Radio.up, .sendReliable 1#8 [10#8] 0#32⟩,
    ⟨Radio.up, .sendReliable 2#8 [20#8] 0#32⟩]

/-- The frame that goes out on channel 2. -/
def mixedFrame : List U8 := [0x11#8, 0x10#8, 0#8, 0#8, 0#8, 0#8, 2#8, 0#8, 1#8, 10#8]

/-- **Two channels with the same id in flight mix up their payloads.** -/
theorem retransmit_not_repeats :
    ¬ ∀ (node₀ node : Node) (cfg : Config), init node₀ cfg = (.ok, node) →
      ∀ as : List ApiStep, (∀ a ∈ as, a.radio = Radio.up) →
        RepeatsFrames (run NodeRun.step ⟨node, []⟩ as) := by
  intro h
  obtain ⟨flags, payload, frame, halloc, hsent, hframe⟩ := h Node.zero eventNode eventConfig
    (Prod.ext (by decide +kernel) rfl) sideBySide
    (fun a ha => by
      simp only [sideBySide, List.mem_cons, List.not_mem_nil, or_false] at ha
      rcases ha with rfl | rfl | rfl <;> rfl)
    Radio.up 1000#32 2#8 0#16 (by decide +kernel) (by decide +kernel)
  have hgiven : allocated (run NodeRun.step ⟨eventNode, []⟩ sideBySide).history 2#8 0#16
      = some (0#8, [20#8]) := by decide +kernel
  obtain ⟨rfl, rfl⟩ := Prod.mk.inj (Option.some.inj (hgiven.symm.trans halloc))
  have hlog : (poll Radio.up (run NodeRun.step ⟨eventNode, []⟩ sideBySide).node 1000#32).2.log
      = [.sent (run NodeRun.step ⟨eventNode, []⟩ sideBySide).node.peerMac mixedFrame,
        .txEvent .retransmit 0#16] := by decide +kernel
  rw [hlog, List.mem_cons, List.mem_singleton] at hsent
  rcases hsent with hsent | hsent
  · obtain ⟨-, rfl⟩ := Event.sent.inj hsent
    have hdec : decodeHeader mixedFrame 241#16 = .ok (dataHeader 2#8 0#8 0#16 [10#8]) := by
      decide +kernel
    exact absurd (hframe.decode hdec).2 (by decide)
  · exact absurd hsent (by simp)

end Relinow
