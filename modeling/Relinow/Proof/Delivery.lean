import Relinow.Proof.Network

/-!
# In order, at most once, unaltered

What a node hands over is a subsequence of what its peer has sent, whatever the
network does and whatever the radio refuses: packets can be missing, because the
receive queue or a cache was full, but none is repeated, overtaken or changed.

The receiver's window is the link. As long as the ids have not wrapped around,
the id it expects is the number of a packet; what has been handed over lies before
that packet, and what an arrival delivers is a run of packets from there on.
-/

namespace Relinow

open SlotTable Runs

/-! ## The window -/

/-- **The window of an engine whose peer has numbered `n` packets**: packet `e` is expected. -/
structure Window (n : Nat) (ctx : ReliableCtx) (e : Nat) : Prop where
  le : e ≤ n
  opened : ctx.hasRxWindow = true → ctx.expectedRxSeq = BitVec.ofNat 16 e
  closed : ctx.hasRxWindow = false → e = 0
  held : ∀ q ∈ reorderSeqs ctx, ∃ k < n, q = BitVec.ofNat 16 k

theorem Window.mono {n m e : Nat} {ctx : ReliableCtx} (h : Window n ctx e) (hnm : n ≤ m) :
    Window m ctx e := by
  refine ⟨Nat.le_trans h.le hnm, h.opened, h.closed, fun q hq => ?_⟩
  obtain ⟨k, hk, rfl⟩ := h.held q hq
  exact ⟨k, Nat.lt_of_lt_of_le hk hnm, rfl⟩

/-- Only the receive half counts. -/
theorem Window.of_rxHalf {n e : Nat} {channel channel' : ChannelState}
    (h : Window n channel.reliable e) (hhalf : channel'.rxHalf = channel.rxHalf) :
    Window n channel'.reliable e := by
  simp only [ChannelState.rxHalf, Prod.mk.injEq] at hhalf
  obtain ⟨⟨hw, he, hr⟩, -⟩ := hhalf
  refine ⟨h.le, fun ho => ?_, fun hc => ?_, fun q hq => ?_⟩
  · rw [he]
    exact h.opened (hw ▸ ho)
  · exact h.closed (hw ▸ hc)
  · unfold reorderSeqs at hq
    rw [hr] at hq
    exact h.held q hq

/-- A run out of the buffer is a run of numbers. -/
theorem reorderRun_numbers {n : Nat} {ctx : ReliableCtx} (hn : n < 2 ^ 16)
    (hheld : ∀ q ∈ reorderSeqs ctx, ∃ k < n, q = BitVec.ofNat 16 k) :
    ∀ (m e : Nat), e ≤ n → ∃ len, e + len ≤ n
      ∧ reorderRun ctx m (BitVec.ofNat 16 e) = (List.range' e len).map (BitVec.ofNat 16) := by
  intro m
  induction m with
  | zero => exact fun e he => ⟨0, he, rfl⟩
  | succ m ih =>
      intro e he
      rw [reorderRun]
      split
      · rename_i hc
        obtain ⟨k, hk, heq⟩ := hheld _ (reorderContains_iff.mp hc)
        obtain rfl := SerialNumber.eq_of_ofNat_eq (by omega) (by omega) heq
        obtain ⟨len, hlen, hrun⟩ := ih (e + 1) hk
        refine ⟨len + 1, by omega, ?_⟩
        rw [show seqNext (BitVec.ofNat 16 e) = BitVec.ofNat 16 (e + 1) from
          (BitVec.ofNat_add e 1).symm, hrun, List.range'_succ]
        rfl
      · exact ⟨0, he, rfl⟩

/-- **An arrival delivers a run of numbers from the expected one or a later one**, and the number
after the run is then expected. -/
theorem Window.onData {n e k : Nat} {ctx : ReliableCtx} (h : Window n ctx e) (hn : n < 2 ^ 16)
    (hk : k < n) :
    ∃ s len, e ≤ s
      ∧ deliverable ctx (BitVec.ofNat 16 k) = (List.range' s len).map (BitVec.ofNat 16)
      ∧ Window n (reliableOnData ctx (BitVec.ofNat 16 k)).1 (s + len) := by
  have hsucc : ∀ a b : Nat, BitVec.ofNat 16 a + BitVec.ofNat 16 b = BitVec.ofNat 16 (a + b) :=
    fun a b => (BitVec.ofNat_add a b).symm
  rw [← reliableOnData_delivered]
  rcases reliableOnData_cases ctx (BitVec.ofNat 16 k) with ⟨hw, heq⟩ |
    ⟨hw, hq, ctx', ds, hds, hfr, hks, heq⟩ | ⟨hw, _, _, heq⟩ | ⟨hw, _, _, _, ctx', hfr, hks, heq⟩ |
    ⟨hw, _, _, _, heq⟩ | ⟨hw, _, _, heq⟩ <;> rw [heq]
  · -- the first arrival
    refine ⟨k, 1, by rw [h.closed hw]; omega, rfl, hk, fun _ => hsucc k 1, fun hc => ?_, h.held⟩
    exact absurd hc (by simp)
  · -- in order
    rw [h.opened hw] at hq
    have hle := h.le
    obtain rfl := SerialNumber.eq_of_ofNat_eq (by omega) (by omega) hq
    obtain ⟨len, hlen, hrun⟩ := reorderRun_numbers hn h.held maxReorder (k + 1) hk
    rw [show seqNext (BitVec.ofNat 16 k) = BitVec.ofNat 16 (k + 1) from hsucc k 1, hrun] at hds
    refine ⟨k, len + 1, Nat.le_refl k, ?_, by omega, fun _ => ?_, fun hc => ?_, fun q hq => ?_⟩
    · dsimp only
      rw [hds, List.range'_succ]
      rfl
    · dsimp only
      rw [hfr, hds, List.length_map, List.length_range']
      exact hsucc k (len + 1)
    · rw [hfr] at hc
      exact absurd hw (by rw [show ctx.hasRxWindow = false from hc]; decide)
    · refine h.held q ?_
      rw [hks]
      exact Multiset.mem_add.mpr (Or.inr hq)
  · -- already buffered
    exact ⟨e, 0, Nat.le_refl e, rfl, h⟩
  · -- newly buffered
    refine ⟨e, 0, Nat.le_refl e, rfl, h.le, fun _ => ?_, fun hc => ?_, fun q hq => ?_⟩
    · dsimp only
      rw [hfr]
      exact h.opened hw
    · rw [hfr] at hc
      exact absurd hw (by rw [show ctx.hasRxWindow = false from hc]; decide)
    · dsimp only at hq
      rw [hks, Multiset.mem_cons] at hq
      rcases hq with rfl | hq
      · exact ⟨k, hk, rfl⟩
      · exact h.held q hq
  · -- dropped: the buffer is full
    exact ⟨e, 0, Nat.le_refl e, rfl, h⟩
  · -- behind the window
    exact ⟨e, 0, Nat.le_refl e, rfl, h⟩

/-! ## Handing over -/

/-- The payload given an id is the one at its place. -/
theorem Numbered.getElem {packets : List (U16 × List U8)} (h : Numbered packets)
    (hn : packets.length < 2 ^ 16) {s : Nat} (hs : s < packets.length) {payload : List U8}
    (hm : (BitVec.ofNat 16 s, payload) ∈ packets) :
    packets[s] = (BitVec.ofNat 16 s, payload) := by
  obtain ⟨k, hk, heq⟩ := List.getElem_of_mem hm
  have hid : packets[k].1 = BitVec.ofNat 16 k := by
    have hget : (packets.map (·.1))[k]? = some (BitVec.ofNat 16 k) := by
      rw [h, List.getElem?_map, List.getElem?_range hk]
      rfl
    rw [List.getElem?_map, List.getElem?_eq_getElem hk] at hget
    exact Option.some.inj hget
  rw [heq] at hid
  obtain rfl := SerialNumber.eq_of_ofNat_eq (by omega) (by omega) hid
  exact heq

/-- Every cached payload is a whole packet, one of `packets`. -/
def CachedOf (packets : List (U16 × List U8)) (node : Node) : Prop :=
  ∀ i : Fin rxCacheSize, node.rxCache[i].inUse = true → node.rxCache[i].flags = 0#8
    ∧ (node.rxCache[i].seqId, node.rxCache[i].payload) ∈ packets

theorem CachedOf.deliverOne {packets : List (U16 × List U8)} {k : Call}
    (h : CachedOf packets k.node) (src : Mac) (c : U8) (now : U32) (q : U16) :
    CachedOf packets (deliverOne src c now k q).node := by
  intro i hu
  have hkept := deliverOne_cache hu
  rw [hkept] at hu ⊢
  exact h i hu

/-- **One round hands over nothing, or the packet with that id.** -/
theorem deliverOne_packet {packets : List (U16 × List U8)} {k : Call}
    (h : CachedOf packets k.node) (src : Mac) (c : U8) (now : U32) (q : U16) :
    (deliverOne src c now k q).log = k.log
      ∨ ∃ payload, (q, payload) ∈ packets
        ∧ (deliverOne src c now k q).log = k.log ++ [.message .plain src c q payload] := by
  rcases deliverOne_cases src c now k q with ⟨_, heq⟩ | ⟨i, _, hu, hq, ⟨hf, _⟩ | ⟨_, heq⟩⟩
  · rw [heq]
    exact Or.inl rfl
  · rw [(h i hu).1] at hf
    exact absurd hf (by decide)
  · rw [heq]
    show (deliverPlain k src c k.node.rxCache[i]).log = _ ∨ ∃ payload, _
      ∧ (deliverPlain k src c k.node.rxCache[i]).log = _
    rw [deliverPlain_log]
    cases k.node.onMessage with
    | false => exact Or.inl (List.append_nil _)
    | true =>
        refine Or.inr ⟨k.node.rxCache[i].payload, ?_, by rw [if_pos rfl, hq]⟩
        rw [← hq]
        exact (h i hu).2

/-- **The delivery loop** hands over a subsequence of the packets with the numbers it runs
through. -/
theorem deliverAll_packets {packets : List (U16 × List U8)} (hnum : Numbered packets)
    (hn : packets.length < 2 ^ 16) (src : Mac) (c : U8) (now : U32) :
    ∀ (len s : Nat) (k : Call), s + len ≤ packets.length → CachedOf packets k.node →
      ∃ new, deliveredPackets
          (((List.range' s len).map (BitVec.ofNat 16)).foldl (deliverOne src c now) k).log
          = deliveredPackets k.log ++ new
        ∧ new.Sublist ((packets.drop s).take len) := by
  intro len
  induction len with
  | zero => exact fun s k _ _ => ⟨[], (List.append_nil _).symm, List.nil_sublist _⟩
  | succ len ih =>
      intro s k hlen hk
      have hs : s < packets.length := by omega
      rw [List.range'_succ, List.map_cons, List.foldl_cons, List.drop_eq_getElem_cons hs,
        List.take_succ_cons]
      obtain ⟨new, hnew, hsub⟩ := ih (s + 1) (deliverOne src c now k (BitVec.ofNat 16 s)) (by omega)
        (hk.deliverOne src c now _)
      rcases deliverOne_packet hk src c now (BitVec.ofNat 16 s) with hlog | ⟨payload, hm, hlog⟩ <;>
        rw [hlog] at hnew
      · exact ⟨new, hnew, hsub.cons _⟩
      · refine ⟨(BitVec.ofNat 16 s, payload) :: new, ?_, ?_⟩
        · rw [hnew, deliveredPackets_append, List.append_assoc]
          rfl
        · rw [hnum.getElem hn hs hm]
          exact hsub.cons_cons _

/-! ## The receiver -/

/-- **What a node has handed over**, of the packets its peer has sent: a subsequence of those
before the expected one. -/
structure Receives (c₀ : U8) (packets : List (U16 × List U8)) (w : NodeRun) : Prop where
  cached : CachedOf packets w.node
  inOrder : packets.length < 2 ^ 16 → ∃ channel e, w.node.reliableAt c₀ = some channel
    ∧ Window packets.length channel.reliable e
    ∧ (deliveredPackets w.history).Sublist (packets.take e)

/-- The peer may have sent more in the meantime. -/
theorem Receives.mono {c₀ : U8} {packets : List (U16 × List U8)} {w : NodeRun}
    (h : Receives c₀ packets w) (new : List (U16 × List U8)) :
    Receives c₀ (packets ++ new) w := by
  refine ⟨fun i hu => ?_, fun hn => ?_⟩
  · obtain ⟨hf, hm⟩ := h.cached i hu
    exact ⟨hf, List.mem_append_left _ hm⟩
  · rw [List.length_append] at hn
    obtain ⟨channel, e, hch, hwin, hsub⟩ := h.inOrder (by omega)
    refine ⟨channel, e, hch, hwin.mono (by rw [List.length_append]; omega), ?_⟩
    rw [List.take_append_of_le_length hwin.le]
    exact hsub

/-- Calls that are quiet on the receive side. -/
theorem Receives.quiet {c₀ : U8} {packets : List (U16 × List U8)} {w : NodeRun}
    (h : Receives c₀ packets w) (hs : Solo c₀ w.node) {k : Call} (hq : RxQuietCall w.node k) :
    Receives c₀ packets ⟨k.node, w.history ++ k.log⟩ := by
  refine ⟨fun i hu => ?_, fun hn => ?_⟩
  · simp only [hq.node_quiet.cache] at hu ⊢
    exact h.cached i hu
  · obtain ⟨channel, e, hch, hwin, hsub⟩ := h.inOrder hn
    obtain ⟨channel', hch', hhalf⟩ := hq.node_quiet.channels.after hch
    refine ⟨channel', e, hch', hwin.of_rxHalf hhalf, ?_⟩
    rw [deliveredPackets_append, hs.deliveredPackets_eq_nil hq.log, List.append_nil]
    exact hsub

/-- What arrives is cached as it was sent. -/
theorem CachedOf.arrived {packets : List (U16 × List U8)} {node : Node}
    (h : CachedOf packets node) {header : Header} {payload : List U8} (hf : header.flags = 0#8)
    (hm : (header.seqId, payload) ∈ packets) (state : State) :
    CachedOf packets (node.arrived header payload state) :=
  arrived_entries (P := fun entry => entry.flags = 0#8 ∧ (entry.seqId, entry.payload) ∈ packets)
    h ⟨hf, hm⟩ state

theorem CachedOf.deliverAll {packets : List (U16 × List U8)} {k : Call}
    (h : CachedOf packets k.node) (src : Mac) (c : U8) (now : U32) (ds : List U16) :
    CachedOf packets (ds.foldl (Relinow.deliverOne src c now) k).node := by
  intro i hu
  have hkept := deliverAll_cache hu
  rw [hkept] at hu ⊢
  exact h i hu

/-- **A packet of the peer arrives.** -/
theorem Receives.arrive {c₀ : U8} {packets : List (U16 × List U8)} {w : NodeRun}
    (h : Receives c₀ packets w) (hnum : Numbered packets) (radio : Radio) (src : Mac)
    {header : Header} {payload : List U8} {channel : ChannelState} (now : U32)
    (hch : w.node.reliableAt header.channelId = some channel) (hc : header.channelId = c₀)
    (hf : header.flags = 0#8) (hm : (header.seqId, payload) ∈ packets) :
    Receives c₀ packets
      ⟨(receiveData radio (Call.start w.node) src header payload now).2.node,
        w.history ++ (receiveData radio (Call.start w.node) src header payload now).2.log⟩ := by
  subst hc
  obtain ⟨channel', state', hfr, hrel, _, hcases⟩ := receiveData_spec radio src payload now hch
  have hcached := h.cached.arrived hf hm state'
  have hctx : channel'.reliable = (reliableOnData channel.reliable header.seqId).1 := by rw [hfr]
  have hafter : (w.node.arrived header payload state').reliableAt header.channelId
      = some channel' := by
    rw [arrived_reliableAt, hrel, Function.update_self]
  -- the window moves on in any case
  have hmove : packets.length < 2 ^ 16 → ∃ e s len, e ≤ s
      ∧ deliverable channel.reliable header.seqId = (List.range' s len).map (BitVec.ofNat 16)
      ∧ Window packets.length channel'.reliable (s + len)
      ∧ (deliveredPackets w.history).Sublist (packets.take e) := by
    intro hn
    obtain ⟨ch, e, hch', hwin, hsub⟩ := h.inOrder hn
    obtain rfl := Option.some.inj (hch.symm.trans hch')
    obtain ⟨k, hk, hq⟩ : ∃ k < packets.length, header.seqId = BitVec.ofNat 16 k := by
      have hid := List.mem_map_of_mem (f := (·.1)) hm
      rw [hnum] at hid
      obtain ⟨k, hk, hq⟩ := List.mem_map.mp hid
      exact ⟨k, List.mem_range.mp hk, hq.symm⟩
    obtain ⟨s, len, hes, hds, hnext⟩ := hwin.onData hn hk
    rw [← hq, ← hctx] at hnext
    exact ⟨e, s, len, hes, by rw [hq]; exact hds, hnext, hsub⟩
  rcases hcases with ⟨_, heq⟩ | ⟨_, _, attempts, answer, hanswer, heq⟩ <;> rw [heq]
  · refine ⟨hcached, fun hn => ?_⟩
    obtain ⟨e, s, len, hes, _, hnext, hsub⟩ := hmove hn
    refine ⟨channel', s + len, hafter, hnext, ?_⟩
    dsimp only [Call.start]
    rw [List.append_nil]
    exact hsub.trans (List.take_sublist_take_left (by omega))
  · refine ⟨hcached.deliverAll src header.channelId now _, fun hn => ?_⟩
    obtain ⟨e, s, len, hes, hds, hnext, hsub⟩ := hmove hn
    have hover := HandsOver.all src header.channelId now (deliverable channel.reliable header.seqId)
      ⟨w.node.arrived header payload state', attempts, answer⟩
    refine ⟨channel', s + len, ?_, hnext, ?_⟩
    · dsimp only
      rw [hover.reliableAt]
      exact hafter
    · dsimp only
      rw [hds]
      obtain ⟨new, hnew, hsubnew⟩ := deliverAll_packets hnum hn src header.channelId now len s
        ⟨w.node.arrived header payload state', attempts, answer⟩ hnext.le hcached
      have hans : deliveredPackets answer = [] := by
        rcases hanswer with rfl | ⟨frame, rfl, _⟩ <;> rfl
      rw [deliveredPackets_append, hnew, hans, List.nil_append, List.take_add]
      exact (hsub.trans (List.take_sublist_take_left hes)).append hsubnew

/-- **Each call keeps it so**, if what it is given is a frame of the peer. -/
theorem receives_step {c₀ : U8} {packets : List (U16 × List U8)} {w : NodeRun} {a : ApiStep}
    (h : Receives c₀ packets w) (hs : Solo c₀ w.node) (hnum : Numbered packets)
    (hcall : WholePackets w.node a.call)
    (hheard : ∀ src data now, a.call = .onReceive src data now →
      Carries (DataOf packets) data) :
    Receives c₀ packets (w.step a) := by
  obtain ⟨radio, call⟩ := a
  cases call with
  | sendReliable c payload now => exact h.quiet hs (sendReliable_rx radio w.node c payload now)
  | poll now =>
      have hq := poll_rx radio w.node now
      have hs' : Solo c₀ (pollReassembly w.node now)
          ∧ Receives c₀ packets ⟨pollReassembly w.node now, w.history⟩ := by
        rcases pollReassembly_cases w.node now with heq | ⟨_, heq⟩ <;> rw [heq]
        · exact ⟨hs, h⟩
        · exact ⟨hs, h.cached, h.inOrder⟩
      exact hs'.2.quiet hs'.1 hq
  | onReceive src data now =>
      show Receives c₀ packets ⟨(onReceive radio w.node src data now).2.node,
        w.history ++ (onReceive radio w.node src data now).2.log⟩
      rcases onReceive_rx radio w.node src data now with hq | ⟨header, channel, hacc, ht, heq⟩
      · exact h.quiet hs hq
      · obtain ⟨hf, hm⟩ := (hheard src data now rfl).accepted hacc ht
        rw [heq]
        exact h.arrive hnum radio src now hacc.at_channel (hs.reliable hacc.at_channel) hf hm
  | _ => exact absurd hcall id

theorem receives_init {node node' : Node} {cfg : Config} (h : init node cfg = (.ok, node'))
    (hm : cfg.mode = modeReliable) : Receives cfg.channelId [] ⟨node', []⟩ := by
  obtain ⟨state, ch, rfl, _, _, _, hmode, hctx, hopen⟩ := init_ok h
  refine ⟨fun i hu => absurd hu (by simp), fun _ => ⟨ch, 0, ?_, ?_, List.nil_sublist _⟩⟩
  · refine reliableAt_eq_some.mpr ⟨?_, hmode.trans hm⟩
    show channelAt state 0#8 cfg.channelId = some ch
    rw [hopen, Function.update_self]
  · rw [(hctx hm).1]
    refine ⟨Nat.le_refl 0, fun ho => absurd ho (by simp [reliableInit, ReliableCtx.zero]),
      fun _ => rfl, fun q hq => ?_⟩
    rw [reorderSeqs_init] at hq
    exact absurd hq (Multiset.notMem_zero q)

/-! ## Both nodes -/

/-- **The invariant of the pair.** -/
structure PairInv (c₀ : U8) (w : Pair) : Prop where
  sends : ∀ x, Sends c₀ (w.side x)
  receives : ∀ x, Receives c₀ (assignedPackets (w.side x.other).history) (w.side x)

theorem pairInv_step {c₀ : U8} (w : Pair) (a : PairStep) (h : PairInv c₀ w)
    (hallow : Allowed w a) : PairInv c₀ (w.step a) := by
  obtain ⟨hcall, hheard⟩ := hallow
  have hself := w.step_self a
  have hother := w.step_other a
  refine ⟨fun x => ?_, fun x => ?_⟩ <;> rcases x.eq_or_other a.side with rfl | rfl
  · rw [hself]
    exact sends_step (h.sends _) hcall
  · rw [hother]
    exact h.sends _
  · rw [hself, hother]
    refine receives_step (h.receives _) (h.sends _).solo (h.sends _).numbered hcall ?_
    intro src data now hdata
    rw [hdata] at hheard
    exact (h.sends _).frames data hheard
  · rw [hother, Side.other_other, hself]
    have hkeep := h.receives a.side.other
    rw [Side.other_other] at hkeep
    unfold NodeRun.step
    rw [assignedPackets_append]
    exact hkeep.mono _

theorem pairInv_init {node₁ node₂ left right : Node} {cfg₁ cfg₂ : Config}
    (hleft : init node₁ cfg₁ = (.ok, left)) (hright : init node₂ cfg₂ = (.ok, right))
    (hm₁ : cfg₁.mode = modeReliable) (hm₂ : cfg₂.mode = modeReliable)
    (hc : cfg₁.channelId = cfg₂.channelId) : PairInv cfg₁.channelId (Pair.start left right) := by
  refine ⟨fun x => ?_, fun x => ?_⟩ <;> cases x
  · exact sends_init hleft hm₁
  · rw [hc]
    exact sends_init hright hm₂
  · exact receives_init hleft hm₁
  · rw [hc]
    exact receives_init hright hm₂

/-- Ids that have not wrapped around are told apart. -/
theorem Numbered.nodup {packets : List (U16 × List U8)} (h : Numbered packets)
    (hn : packets.length ≤ 2 ^ 16) : (packets.map (·.1)).Nodup := by
  rw [h]
  refine List.nodup_range.map_on fun a ha b hb heq => ?_
  rw [List.mem_range] at ha hb
  exact SerialNumber.eq_of_ofNat_eq (by omega) (by omega) heq

/-- What the receiver has handed over, against what the sender has given ids. -/
structure InOrderOnce (sender receiver : List Event) : Prop where
  /-- The payloads handed over are a subsequence of the payloads sent. -/
  payloads : ((deliveredPackets receiver).map (·.2)).Sublist ((assignedPackets sender).map (·.2))
  /-- So they are with their ids. -/
  packets : (deliveredPackets receiver).Sublist (assignedPackets sender)
  /-- No id is handed over twice. -/
  once : ((deliveredPackets receiver).map (·.1)).Nodup

/-- **In order, at most once, unaltered**: of every run of two nodes that share one reliable
channel, in both directions, as long as no more than half the ids are used. -/
theorem delivery_inOrder {node₁ node₂ left right : Node} {cfg₁ cfg₂ : Config}
    (hleft : init node₁ cfg₁ = (.ok, left)) (hright : init node₂ cfg₂ = (.ok, right))
    (hm₁ : cfg₁.mode = modeReliable) (hm₂ : cfg₂.mode = modeReliable)
    (hc : cfg₁.channelId = cfg₂.channelId) (as : List PairStep)
    (hrun : Along Pair.step Allowed (Pair.start left right) as) (x : Side)
    (hfew : (assignedPackets
      ((run Pair.step (Pair.start left right) as).side x).history).length ≤ 32768) :
    InOrderOnce ((run Pair.step (Pair.start left right) as).side x).history
      ((run Pair.step (Pair.start left right) as).side x.other).history := by
  have hinv := invariant pairInv_step (pairInv_init hleft hright hm₁ hm₂ hc) hrun
  have hrecv := hinv.receives x.other
  rw [Side.other_other] at hrecv
  obtain ⟨_, e, _, _, hsub⟩ := hrecv.inOrder (by omega)
  have hsub := hsub.trans (List.take_sublist e _)
  exact ⟨hsub.map _, hsub, ((hinv.sends x).numbered.nodup (by omega)).sublist (hsub.map _)⟩

/-- The radio refuses packet 0 and takes packet 1, which arrives twice. -/
def skipSend : PairStep := ⟨.left, fun _ => some 1#32, .sendReliable 1#8 [10#8] 0#32⟩
def skipNext : PairStep := ⟨.left, Radio.up, .sendReliable 1#8 [20#8] 0#32⟩
def skipArrive : PairStep := ⟨.right, Radio.up, .onReceive listenNode.peerMac
  [0x11#8, 0x10#8, 0#8, 1#8, 0#8, 0#8, 1#8, 0#8, 1#8, 20#8] 0#32⟩

def skipStart : Pair := Pair.start listenNode listenNode
def skipSent : Pair := skipStart.step skipSend
def skipBoth : Pair := skipSent.step skipNext
def skipOnce : Pair := skipBoth.step skipArrive
def skipTwice : Pair := skipOnce.step skipArrive

theorem delivery_inOrder_skip : InOrderOnce skipTwice.left.history skipTwice.right.history
    ∧ assignedPackets skipTwice.left.history = [(0#16, [10#8]), (1#16, [20#8])]
    ∧ deliveredPackets skipTwice.right.history = [(1#16, [20#8])] := by
  have hinit : init Node.zero listenConfig = (.ok, listenNode) := Prod.ext (by decide +kernel) rfl
  have hrun : Along Pair.step Allowed skipStart [skipSend, skipNext, skipArrive, skipArrive] :=
    Along.cons (show Allowed skipStart skipSend by decide +kernel) <|
      Along.cons (show Allowed skipSent skipNext by decide +kernel) <|
      Along.cons (show Allowed skipBoth skipArrive by decide +kernel) <|
      Along.cons (show Allowed skipOnce skipArrive by decide +kernel) trivial
  have hassigned : assignedPackets skipTwice.left.history = [(0#16, [10#8]), (1#16, [20#8])] := by
    decide +kernel
  have hfew : (assignedPackets skipTwice.left.history).length ≤ 32768 := by
    rw [hassigned]
    decide
  have h := delivery_inOrder hinit hinit rfl rfl rfl _ hrun .left hfew
  simp only [run_cons, run_nil] at h
  exact ⟨h, hassigned, by decide +kernel⟩

end Relinow
