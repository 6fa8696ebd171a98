import Relinow.Proof.ReceiveSide
import Relinow.Lib.Runs

/-!
# The cache of received payloads

What an arriving frame carries waits in a table of nine entries until the engine
delivers its id. The table is one for the whole node and is searched by the id
alone, so a frame of one channel can find, or be delivered as, what a frame of
another left there.

The run keeps track of which channel's frame filled each entry. A message is
then attributed rightly as long as no id is delivered on a channel while the
entry with that id belongs to another.
-/

namespace Relinow

open SlotTable Runs

/-- A node run, with the DATA frames that reached a reliable channel, as channel, id and payload,
and the channel whose frame filled each entry of the cache. -/
structure RxRun where
  toRun : NodeRun
  received : List (U8 × U16 × List U8)
  owner : Vector U8 rxCacheSize
  deriving DecidableEq, Repr

/-- The run after one more call. -/
def RxRun.step (w : RxRun) (a : ApiStep) : RxRun :=
  match arrival w.toRun.node a.call with
  | none => { w with toRun := w.toRun.step a }
  | some (header, payload, _) =>
      { toRun := w.toRun.step a
        received := w.received ++ [(header.channelId, header.seqId, payload)]
        owner :=
          match storeIdx w.toRun.node header with
          | none => w.owner
          | some i => w.owner.put i header.channelId }

/-- Nothing has arrived yet. -/
def RxRun.start (node : Node) : RxRun := ⟨⟨node, []⟩, [], Vector.replicate rxCacheSize 0#8⟩

/-- What an arrival delivers is in no entry that another channel's frame filled. -/
def DeliversOwn (w : RxRun) (a : ApiStep) : Prop :=
  match arrival w.toRun.node a.call with
  | none => True
  | some (header, _, channel) => HasRoom channel header.seqId →
      ∀ i : Fin rxCacheSize, w.toRun.node.rxCache[i].inUse = true →
        hasFlag w.toRun.node.rxCache[i].flags flagFragment = false →
        w.toRun.node.rxCache[i].seqId ∈ deliverable channel.reliable header.seqId →
        w.owner[i] = header.channelId

instance (w : RxRun) (a : ApiStep) : Decidable (DeliversOwn w a) := by
  unfold DeliversOwn
  exact match arrival w.toRun.node a.call with
    | none => instDecidableTrue
    | some (_, _, _) => inferInstance

/-- Each entry holds the payload of a frame its owner received, and each message handed over
carries the payload of a frame received on its channel with its id. -/
structure OwnerInv (w : RxRun) : Prop where
  entries : ∀ i : Fin rxCacheSize, w.toRun.node.rxCache[i].inUse = true →
    (w.owner[i], w.toRun.node.rxCache[i].seqId, w.toRun.node.rxCache[i].payload) ∈ w.received
  messages : ∀ src c q payload, .message .plain src c q payload ∈ w.toRun.history →
    (c, q, payload) ∈ w.received

/-- Calls that bring no DATA keep the invariant. -/
theorem OwnerInv.quiet {w : RxRun} {node' : Node} {log : List Event} (h : OwnerInv w)
    (hcache : node'.rxCache = w.toRun.node.rxCache) (hlog : ∀ e ∈ log, e.NoDelivery w.toRun.node) :
    OwnerInv { w with toRun := ⟨node', w.toRun.history ++ log⟩ } := by
  refine ⟨fun i hu => ?_, fun src c q payload hm => ?_⟩
  · simp only [hcache] at hu ⊢
    exact h.entries i hu
  · rcases List.mem_append.mp hm with hm | hm
    · exact h.messages src c q payload hm
    · exact absurd rfl (hlog _ hm).1.1

/-- **The messages of the delivery loop** come out of the entries it starts with. -/
theorem deliverAll_plain (R : U16 → List U8 → Prop) (src : Mac) (c : U8) (now : U32)
    (ds : List U16) : ∀ k : Call,
      (∀ i : Fin rxCacheSize, k.node.rxCache[i].inUse = true →
        hasFlag k.node.rxCache[i].flags flagFragment = false → k.node.rxCache[i].seqId ∈ ds →
        R k.node.rxCache[i].seqId k.node.rxCache[i].payload) →
      ∀ e ∈ (ds.foldl (deliverOne src c now) k).log, e ∈ k.log
        ∨ ∀ src' c' q payload, e = .message .plain src' c' q payload → c' = c ∧ R q payload := by
  induction ds with
  | nil => exact fun k _ e he => Or.inl he
  | cons d ds ih =>
      intro k hall e he
      -- what the first round leaves in the cache was there before it
      have hnext : ∀ i : Fin rxCacheSize,
          (deliverOne src c now k d).node.rxCache[i].inUse = true →
          hasFlag (deliverOne src c now k d).node.rxCache[i].flags flagFragment = false →
          (deliverOne src c now k d).node.rxCache[i].seqId ∈ ds →
          R (deliverOne src c now k d).node.rxCache[i].seqId
            (deliverOne src c now k d).node.rxCache[i].payload := by
        intro i hu hf hd
        have hkept := deliverOne_cache hu
        rw [hkept] at hu hf hd ⊢
        exact hall i hu hf (List.mem_cons_of_mem d hd)
      rcases ih _ hnext e he with he | he
      · rcases deliverOne_cases src c now k d with
          ⟨_, heq⟩ | ⟨i, _, hu, hd, ⟨_, heq⟩ | ⟨hf, heq⟩⟩ <;>
          rw [heq] at he
        · exact Or.inl he
        · obtain ⟨rest, hlog, hrest⟩ := deliverFragment_log k src c now k.node.rxCache[i]
          rcases List.mem_append.mp (hlog ▸ he) with he | he
          · exact Or.inl he
          · obtain ⟨_, _, rfl⟩ := hrest e he
            exact Or.inr fun _ _ _ _ heq => absurd heq (by simp)
        · rcases List.mem_append.mp ((deliverPlain_log k src c k.node.rxCache[i]) ▸ he) with he | he
          · exact Or.inl he
          · refine Or.inr fun src' c' q payload heq => ?_
            rw [List.mem_ite_nil_right, List.mem_singleton] at he
            obtain ⟨_, _, rfl, rfl, rfl⟩ := Event.message.inj (he.2.symm.trans heq)
            -- a plain packet is handed over as it was cached
            exact ⟨rfl, hall i hu hf (by rw [hd]; exact List.mem_cons_self)⟩
      · exact Or.inr he

/-- The ghost owners after an arrival fit the cache after its payload has been stored. -/
theorem OwnerInv.store {w : RxRun} (h : OwnerInv w) (header : Header) (payload : List U8)
    (i : Fin rxCacheSize)
    (hu : (rxCacheStore w.toRun.node header payload).rxCache[i].inUse = true) :
    ((match storeIdx w.toRun.node header with
        | none => w.owner
        | some j => w.owner.put j header.channelId)[i],
      (rxCacheStore w.toRun.node header payload).rxCache[i].seqId,
      (rxCacheStore w.toRun.node header payload).rxCache[i].payload)
        ∈ w.received ++ [(header.channelId, header.seqId, payload)] := by
  rcases rxCacheStore_cases w.toRun.node header payload with ⟨hidx, heq, _⟩ |
    ⟨j, hidx, _, _, heq⟩ <;> rw [hidx] <;> simp only [heq] at hu ⊢
  · exact List.mem_append_left _ (h.entries i hu)
  · by_cases hji : j = i
    · subst hji
      rw [put_self, put_self]
      exact List.mem_append_right _ (List.mem_singleton_self _)
    · rw [put_ne hji] at hu
      rw [put_ne hji, put_ne hji]
      exact List.mem_append_left _ (h.entries i hu)

/-- An entry the arrival delivers holds the payload of a frame of its channel. -/
theorem OwnerInv.own {w : RxRun} (h : OwnerInv w) (header : Header) (payload : List U8)
    {ds : List U16}
    (hown : ∀ i : Fin rxCacheSize, w.toRun.node.rxCache[i].inUse = true →
      hasFlag w.toRun.node.rxCache[i].flags flagFragment = false →
      w.toRun.node.rxCache[i].seqId ∈ ds → w.owner[i] = header.channelId)
    (i : Fin rxCacheSize)
    (hu : (rxCacheStore w.toRun.node header payload).rxCache[i].inUse = true)
    (hf : hasFlag (rxCacheStore w.toRun.node header payload).rxCache[i].flags flagFragment = false)
    (hd : (rxCacheStore w.toRun.node header payload).rxCache[i].seqId ∈ ds) :
    (header.channelId, (rxCacheStore w.toRun.node header payload).rxCache[i].seqId,
      (rxCacheStore w.toRun.node header payload).rxCache[i].payload)
        ∈ w.received ++ [(header.channelId, header.seqId, payload)] := by
  -- an entry that was there before belongs to the channel
  have hold : ∀ i : Fin rxCacheSize, w.toRun.node.rxCache[i].inUse = true →
      hasFlag w.toRun.node.rxCache[i].flags flagFragment = false →
      w.toRun.node.rxCache[i].seqId ∈ ds →
      (header.channelId, w.toRun.node.rxCache[i].seqId, w.toRun.node.rxCache[i].payload)
        ∈ w.received ++ [(header.channelId, header.seqId, payload)] := by
    intro i hu hf hd
    rw [← hown i hu hf hd]
    exact List.mem_append_left _ (h.entries i hu)
  rcases rxCacheStore_cases w.toRun.node header payload with ⟨_, heq, _⟩ | ⟨j, _, _, _, heq⟩ <;>
    simp only [heq] at hu hf hd ⊢
  · exact hold i hu hf hd
  · by_cases hji : j = i
    · subst hji
      rw [put_self]
      exact List.mem_append_right _ (List.mem_singleton_self _)
    · rw [put_ne hji] at hu hf hd ⊢
      exact hold i hu hf hd

/-- **One call keeps the invariant**, if what it delivers belongs to its channel. -/
theorem ownerInv_step (w : RxRun) (a : ApiStep) (h : OwnerInv w) (hguard : DeliversOwn w a) :
    OwnerInv (w.step a) := by
  unfold RxRun.step
  cases harr : arrival w.toRun.node a.call with
  | none =>
      obtain ⟨hcache, hlog⟩ := run_of_no_arrival a.radio harr
      exact h.quiet hcache hlog
  | some x =>
      obtain ⟨header, payload, channel⟩ := x
      unfold DeliversOwn at hguard
      rw [harr] at hguard
      dsimp only at hguard ⊢
      obtain ⟨src, now, hch, hrun⟩ := run_of_arrival a.radio harr
      obtain ⟨channel', state', _, _, _, hcases⟩ := receiveData_spec a.radio src payload now hch
      have hnode : (w.toRun.step a).node = (receiveData a.radio (Call.start w.toRun.node) src header
          payload now).2.node := by
        unfold NodeRun.step
        rw [hrun]
      have hhist : (w.toRun.step a).history = w.toRun.history ++ (receiveData a.radio
          (Call.start w.toRun.node) src header payload now).2.log := by
        unfold NodeRun.step
        rw [hrun]
      rcases hcases with ⟨_, heq⟩ | ⟨hroom, _, attempts, answer, hanswer, heq⟩ <;>
        rw [heq] at hnode hhist
      · -- without room nothing is handed over
        refine ⟨fun i hu => ?_, fun src' c q payload' hm => ?_⟩
        · simp only [hnode] at hu ⊢
          exact h.store header payload i hu
        · dsimp only at hm
          rw [hhist] at hm
          exact List.mem_append_left _ (h.messages src' c q payload'
            (by simpa [Call.start] using hm))
      · refine ⟨fun i hu => ?_, fun src' c q payload' hm => ?_⟩
        · simp only [hnode] at hu ⊢
          -- what is left after the delivery was cached before it
          have hkept := deliverAll_cache hu
          rw [hkept] at hu ⊢
          exact h.store header payload i hu
        · dsimp only at hm
          rw [hhist] at hm
          rcases List.mem_append.mp hm with hm | hm
          · exact List.mem_append_left _ (h.messages src' c q payload' hm)
          · -- what is handed over comes from an entry of this channel
            have hall := deliverAll_plain
              (fun q p => (header.channelId, q, p)
                ∈ w.received ++ [(header.channelId, header.seqId, payload)])
              src header.channelId now (deliverable channel.reliable header.seqId)
              ⟨w.toRun.node.arrived header payload state', attempts, answer⟩ ?_ _ hm
            · rcases hall with hold | hnew
              · rcases hanswer with rfl | ⟨frame, rfl, _⟩
                · exact absurd hold (by simp)
                · exact absurd (List.mem_singleton.mp hold) (by simp)
              · obtain ⟨rfl, hmem⟩ := hnew src' c q payload' rfl
                exact hmem
            · exact fun i hu hf hd => h.own header payload (hguard hroom) i hu hf hd

/-! ## Whole runs -/

/-- Every plain message carries the payload of a DATA frame received on its channel with its
id. -/
def OwnMessages (w : RxRun) : Prop :=
  ∀ src c q payload, .message .plain src c q payload ∈ w.toRun.history →
    (c, q, payload) ∈ w.received

/-- **Payloads are attributed to their own channel**, in every run in which no id is delivered
on one channel out of an entry that another channel's frame filled. -/
theorem messages_own {node₀ node : Node} {cfg : Config} (hinit : init node₀ cfg = (.ok, node))
    (as : List ApiStep) (hguard : Along RxRun.step DeliversOwn (RxRun.start node) as) :
    OwnMessages (run RxRun.step (RxRun.start node) as) := by
  have hstart : OwnerInv (RxRun.start node) := by
    obtain ⟨state, channel, rfl, _⟩ := init_ok hinit
    refine ⟨fun i hu => ?_, fun src c q payload hm => absurd hm (by simp [RxRun.start])⟩
    simp [RxRun.start] at hu
  exact (invariant ownerInv_step hstart hguard).messages

/-- One byte of DATA on the channel `c` with the id `q` arrives. -/
def byteArrives (c q byte : U8) : ApiStep :=
  ⟨Radio.up, .onReceive listenNode.peerMac
    [0x11#8, 0x10#8, 0#8, q, 0#8, 0#8, c, 0#8, 1#8, byte] 0#32⟩

def openSecond : ApiStep := ⟨Radio.up, .openChannel 2#8 modeReliable 0#8⟩

/-- Two channels receive their packet 0. -/
def bothOpen : RxRun := (RxRun.start listenNode).step openSecond
def bothFirst : RxRun := bothOpen.step (byteArrives 1#8 0#8 10#8)
def bothSecond : RxRun := bothFirst.step (byteArrives 2#8 0#8 20#8)

theorem messages_own_both :
    OwnMessages bothSecond
      ∧ .message .plain listenNode.peerMac 1#8 0#16 [10#8] ∈ bothSecond.toRun.history
      ∧ .message .plain listenNode.peerMac 2#8 0#16 [20#8] ∈ bothSecond.toRun.history := by
  have hguard : Along RxRun.step DeliversOwn (RxRun.start listenNode)
      [openSecond, byteArrives 1#8 0#8 10#8, byteArrives 2#8 0#8 20#8] :=
    Along.cons (by decide +kernel) <|
      Along.cons (show DeliversOwn bothOpen (byteArrives 1#8 0#8 10#8) by decide +kernel) <|
      Along.cons (show DeliversOwn bothFirst (byteArrives 2#8 0#8 20#8) by decide +kernel) trivial
  have hinit : init Node.zero listenConfig = (.ok, listenNode) := Prod.ext (by decide +kernel) rfl
  have h := messages_own hinit _ hguard
  simp only [run_cons, run_nil] at h
  exact ⟨h, by decide +kernel, by decide +kernel⟩

/-- Channel 1 holds packet 2 back for packet 1 when channel 2 receives its own packet 2. -/
def heldFirst : RxRun := bothOpen.step (byteArrives 1#8 0#8 10#8)
def heldBack : RxRun := heldFirst.step (byteArrives 1#8 2#8 30#8)
def heldMixed : RxRun := heldBack.step (byteArrives 2#8 2#8 20#8)

/-- **A payload held back on one channel is delivered on another.** -/
theorem messages_not_own :
    ¬ ∀ (node₀ node : Node) (cfg : Config), init node₀ cfg = (.ok, node) →
      ∀ as : List ApiStep, OwnMessages (run RxRun.step (RxRun.start node) as) := by
  intro h
  have hrun := h Node.zero listenNode listenConfig (Prod.ext (by decide +kernel) rfl)
    [openSecond, byteArrives 1#8 0#8 10#8, byteArrives 1#8 2#8 30#8, byteArrives 2#8 2#8 20#8]
  simp only [run_cons, run_nil] at hrun
  have hmixed : OwnMessages heldMixed := hrun
  have hmem := hmixed listenNode.peerMac 2#8 2#16 [30#8] (by decide +kernel)
  have hreceived : heldMixed.received
      = [(1#8, 0#16, [10#8]), (1#8, 2#16, [30#8]), (2#8, 2#16, [20#8])] := by decide +kernel
  rw [hreceived] at hmem
  exact absurd hmem (by decide)

end Relinow
