import Relinow.Proof.ReceiveSide
import Relinow.Lib.Reassembly
import Relinow.Lib.Runs

/-!
# Reassembly

The delivery loop of a node is a receiver of pieces: what its reassembly buffer
holds, and the messages it completes, are what the abstract receiver makes of
the entries the loop takes out of the cache.

The header has no mark on the first fragment. Messages come out whole as long as
every fragment fits when it is handed over: it is the first of its message if no
message is in reassembly, and otherwise the frame sent right after the one
before. A timeout in the middle of a message, an overflow, a window adopted from
a later fragment, or a fragment missing from the cache break this.
-/

namespace Relinow

open SlotTable Runs Reassembly

/-- The fragments in the reassembly buffer, if a message is in reassembly. -/
def Node.gathered (node : Node) : Option (List U8) :=
  if node.reassemblyActive then some node.reassemblyBuf else none

/-- A cached frame as a piece of the stream. -/
def RxCache.piece (entry : RxCache) : Piece U8 :=
  ⟨hasFlag entry.flags flagFragment, hasFlag entry.flags flagLastFragment, entry.payload⟩

theorem gathered_congr {node node' : Node} (h : node'.assembling = node.assembling) :
    node'.gathered = node.gathered := by
  unfold Node.assembling at h
  obtain ⟨hactive, h⟩ := Prod.mk.inj h
  obtain ⟨_, h⟩ := Prod.mk.inj h
  unfold Node.gathered
  rw [hactive, (Prod.mk.inj h).1]

theorem reassemblyStart_gathered (node : Node) (q : U16) (now : U32) :
    (reassemblyStart node q now).reassemblyActive = true
      ∧ (reassemblyStart node q now).reassemblyBuf = node.gathered.getD [] := by
  unfold reassemblyStart Node.gathered
  cases h : node.reassemblyActive with
  | true => exact ⟨h, rfl⟩
  | false => exact ⟨rfl, rfl⟩

/-- **A delivered fragment** is one step of the abstract receiver. -/
theorem deliverFragment_step (k : Call) (src : Mac) (c : U8) (now : U32) (frag : RxCache)
    (hf : hasFlag frag.flags flagFragment = true) :
    (deliverFragment k src c now frag).node.gathered
        = (step maxReassembly k.node.gathered frag.piece).1
      ∧ ∀ e ∈ (deliverFragment k src c now frag).log, e ∈ k.log
        ∨ ∃ q out, e = .message .reassembled src c q out
          ∧ (step maxReassembly k.node.gathered frag.piece).2 = some out := by
  obtain ⟨node, buf, hnode, hbuf, hcases⟩ := deliverFragment_cases k src c now frag
  obtain ⟨hactive, hgathered⟩ := reassemblyStart_gathered k.node frag.seqId now
  rw [← hnode] at hactive hgathered
  have hsum : k.node.gathered.getD [] ++ frag.piece.data = buf := by
    rw [hbuf, hgathered]
    rfl
  unfold step
  rw [if_pos (show frag.piece.fragment = true from hf), hsum]
  rcases hcases with ⟨hover, heq⟩ | ⟨hfits, hlast, rest, heq, hrest⟩ | ⟨hfits, hlast, heq⟩ <;>
    rw [heq]
  · -- no room: the message is dropped, and nothing handed over
    rw [if_pos hover]
    exact ⟨rfl, fun e he => Or.inl he⟩
  · rw [if_neg (Nat.not_lt.mpr hfits), if_pos (show frag.piece.last = true from hlast)]
    refine ⟨rfl, fun e he => ?_⟩
    rcases List.mem_append.mp he with he | he
    · exact Or.inl he
    · exact Or.inr ⟨_, buf, hrest e he, rfl⟩
  · rw [if_neg (Nat.not_lt.mpr hfits), if_neg (show ¬ frag.piece.last = true by
      rw [show frag.piece.last = false from hlast]; simp)]
    -- more fragments to come: the buffer stays active
    refine ⟨?_, fun e he => Or.inl he⟩
    show (if node.reassemblyActive then some buf else none) = some buf
    rw [hactive, if_pos rfl]

/-- **A delivered plain frame** ends what is in reassembly. -/
theorem deliverPlain_step (k : Call) (src : Mac) (c : U8) (frame : RxCache)
    (hf : hasFlag frame.flags flagFragment = false) :
    (deliverPlain k src c frame).node.gathered
        = (step maxReassembly k.node.gathered frame.piece).1
      ∧ ∀ e ∈ (deliverPlain k src c frame).log, e ∈ k.log
        ∨ ∃ q payload, e = .message .plain src c q payload := by
  refine ⟨?_, fun e he => ?_⟩
  · unfold step
    rw [if_neg (show ¬ frame.piece.fragment = true by
      rw [show frame.piece.fragment = false from hf]; simp)]
    unfold deliverPlain
    rw [raiseMessage_node]
    unfold Node.gathered
    cases hactive : k.node.reassemblyActive with
    | true => rfl
    | false => rw [if_neg (by simp [hactive])]
  · rcases List.mem_append.mp ((deliverPlain_log k src c frame) ▸ he) with he | he
    · exact Or.inl he
    · rw [List.mem_ite_nil_right, List.mem_singleton] at he
      exact Or.inr ⟨_, _, he.2⟩

/-! ## The delivery loop -/

/-- The entries the delivery loop takes out of a cache, in order. -/
def handedOver (cache : Vector RxCache rxCacheSize) : List U16 → List (Fin rxCacheSize)
  | [] => []
  | d :: ds =>
      match firstIdx (fun s => s.inUse && s.seqId == d) cache with
      | none => handedOver cache ds
      | some i => i :: handedOver (cache.put i { cache[i] with inUse := false }) ds

theorem handedOver_none {cache : Vector RxCache rxCacheSize} {d : U16} (ds : List U16)
    (h : firstIdx (fun s => s.inUse && s.seqId == d) cache = none) :
    handedOver cache (d :: ds) = handedOver cache ds := by
  rw [handedOver, h]

theorem handedOver_some {cache : Vector RxCache rxCacheSize} {d : U16} {i : Fin rxCacheSize}
    (ds : List U16) (h : firstIdx (fun s => s.inUse && s.seqId == d) cache = some i) :
    handedOver cache (d :: ds)
      = i :: handedOver (cache.put i { cache[i] with inUse := false }) ds := by
  rw [handedOver, h]

/-- **One round of the delivery loop**: an id that is not cached is passed over; the entry of one
that is goes to the abstract receiver, and what the receiver completes is handed over. -/
theorem deliverOne_step (src : Mac) (c : U8) (now : U32) (k : Call) (d : U16) :
    (firstIdx (fun s : RxCache => s.inUse && s.seqId == d) k.node.rxCache = none
      ∧ deliverOne src c now k d = k)
    ∨ ∃ i : Fin rxCacheSize,
      firstIdx (fun s : RxCache => s.inUse && s.seqId == d) k.node.rxCache = some i
      ∧ k.node.rxCache[i].inUse = true
      ∧ (deliverOne src c now k d).node.rxCache
          = k.node.rxCache.put i { k.node.rxCache[i] with inUse := false }
      ∧ (deliverOne src c now k d).node.gathered
          = (step maxReassembly k.node.gathered k.node.rxCache[i].piece).1
      ∧ ∀ e ∈ (deliverOne src c now k d).log, e ∈ k.log
        ∨ ∀ src' c' q out, e = .message .reassembled src' c' q out →
          (step maxReassembly k.node.gathered k.node.rxCache[i].piece).2 = some out := by
  rcases deliverOne_cases src c now k d with ⟨hno, heq⟩ | ⟨i, hfind, hu, -, hcases⟩
  · exact Or.inl ⟨(keyIdx_none RxCache.inUse RxCache.seqId).mpr hno, heq⟩
  · refine Or.inr ⟨i, hfind, hu, ?_⟩
    rcases hcases with ⟨hf, heq⟩ | ⟨hf, heq⟩ <;> rw [heq]
    · obtain ⟨hg, hl⟩ := deliverFragment_step k src c now k.node.rxCache[i] hf
      refine ⟨?_, hg, fun e he => ?_⟩
      · unfold Call.release Call.setNode
        simp only [deliverFragment_cache]
      · rcases hl e he with he | ⟨_, out, rfl, hout⟩
        · exact Or.inl he
        · refine Or.inr fun _ _ _ out' heq' => ?_
          rw [hout, (Event.message.inj heq').2.2.2.2]
    · obtain ⟨hg, hl⟩ := deliverPlain_step k src c k.node.rxCache[i] hf
      refine ⟨?_, hg, fun e he => ?_⟩
      · unfold Call.release Call.setNode
        simp only [deliverPlain_cache]
      · -- a message of one frame is not a reassembled one
        rcases hl e he with he | ⟨_, _, rfl⟩
        · exact Or.inl he
        · exact Or.inr fun _ _ _ _ heq' => absurd heq' (by simp)

/-- **The delivery loop refines the abstract receiver**: fed pieces of a stream in sequence, it
keeps the beginning of a message and hands over whole messages. `index` says which piece of the
stream each entry of the cache holds. -/
theorem deliverAll_whole {ms : List (Message U8)} (index : Vector Nat rxCacheSize) (src : Mac)
    (c : U8) (now : U32) (ds : List U16) : ∀ (k : Call) (prev : Nat),
      (∀ i : Fin rxCacheSize, k.node.rxCache[i].inUse = true →
        ∃ mark, (stream ms)[index[i]]? = some (mark, k.node.rxCache[i].piece)) →
      Halfway ms k.node.gathered prev →
      InSequence maxReassembly ms k.node.gathered prev
        ((handedOver k.node.rxCache ds).map fun i => index[i]) →
      Halfway ms (ds.foldl (deliverOne src c now) k).node.gathered
          (((handedOver k.node.rxCache ds).map fun i => index[i]).getLastD prev)
        ∧ ∀ e ∈ (ds.foldl (deliverOne src c now) k).log, e ∈ k.log
          ∨ ∀ src' c' q out, e = .message .reassembled src' c' q out →
            ∃ parts, .cut parts ∈ ms ∧ out = parts.flatten := by
  induction ds with
  | nil => exact fun k prev _ hhalf _ => ⟨hhalf, fun e he => Or.inl he⟩
  | cons d ds ih =>
      intro k prev hentries hhalf hseq
      -- the entries left after this round are still those of the stream
      have hentries' : ∀ i : Fin rxCacheSize,
          (deliverOne src c now k d).node.rxCache[i].inUse = true →
          ∃ mark, (stream ms)[index[i]]?
            = some (mark, (deliverOne src c now k d).node.rxCache[i].piece) := by
        intro i hu
        have hkept := deliverOne_cache hu
        rw [hkept] at hu ⊢
        exact hentries i hu
      rw [List.foldl_cons]
      rcases deliverOne_step src c now k d with
        ⟨hnone, heq⟩ | ⟨i, hfind, hu, hcache, hgathered, hlog⟩
      · rw [handedOver_none ds hnone] at hseq ⊢
        rw [heq]
        exact ih k prev hentries hhalf hseq
      · obtain ⟨mark, hpiece⟩ := hentries i hu
        have hhanded := handedOver_some ds hfind
        rw [← hcache] at hhanded
        rw [hhanded, List.map_cons] at hseq ⊢
        unfold InSequence at hseq
        rw [hpiece] at hseq
        dsimp only at hseq
        rw [← hgathered] at hseq
        obtain ⟨hstep, hout⟩ := step_whole maxReassembly hhalf hpiece hseq.1
        dsimp only at hstep hout
        rw [← hgathered] at hstep
        obtain ⟨hhalf', hmessages⟩ := ih _ index[i] hentries' hstep hseq.2
        rw [List.getLastD_cons]
        refine ⟨hhalf', fun e he => ?_⟩
        -- a message is from this round or from a later one
        rcases hmessages e he with he | he
        · rcases hlog e he with he | he
          · exact Or.inl he
          · exact Or.inr fun src' c' q out heq' => hout out (he src' c' q out heq')
        · exact Or.inr he

/-! ## A stream of messages and its receiver -/

/-- What the peer sends on the channel: its messages, as it cuts them, under consecutive ids. -/
structure Sender where
  messages : List (Message U8)
  start : U16
  channelId : U8
  maxPayload : U16
  deriving DecidableEq, Repr

def pieceFlags (p : Piece U8) : U8 :=
  if p.fragment then if p.last then flagFragment ||| flagLastFragment else flagFragment else 0#8

/-- The header of frame `n`, which carries the piece `p`. -/
def Sender.header (s : Sender) (n : Nat) (p : Piece U8) : Header :=
  dataHeader s.channelId (pieceFlags p) (s.start + BitVec.ofNat 16 n) p.data

/-- The bytes of frame `n`, as `relinow_send_frame` encodes them. There are none beyond the end of
the stream, or if the piece does not fit. -/
def Sender.frame (s : Sender) (n : Nat) : List U8 :=
  match (stream s.messages)[n]? with
  | none => []
  | some (_, p) =>
      if s.maxPayload.toNat < p.data.length then []
      else
        match encodeHeader (s.header n p) s.maxPayload with
        | .error _ => []
        | .ok bytes => bytes ++ p.data

/-- The receiving node with its history, the frame whose payload each entry of the cache holds,
and the frame handed over last. -/
structure StreamRun where
  toRun : NodeRun
  index : Vector Nat rxCacheSize
  prev : Nat
  deriving DecidableEq, Repr

/-- Frame `n` of the stream arrives, or the node is polled. -/
inductive StreamAction where
  | arrive (n : Nat) (nowMs : U32)
  | poll (nowMs : U32)
  deriving DecidableEq, Repr

structure StreamStep where
  radio : Radio
  action : StreamAction

/-- When frame `n` arrives: the frames the cache holds then, and those that are handed over. -/
def StreamRun.handing (s : Sender) (w : StreamRun) (n : Nat) (nowMs : U32) :
    Option (Vector Nat rxCacheSize × List Nat) :=
  match arrival w.toRun.node (.onReceive w.toRun.node.peerMac (s.frame n) nowMs) with
  | none => none
  | some (header, payload, channel) =>
      let index :=
        match storeIdx w.toRun.node header with
        | none => w.index
        | some i => w.index.put i n
      let taken :=
        if HasRoom channel header.seqId then
          handedOver (rxCacheStore w.toRun.node header payload).rxCache
            (deliverable channel.reliable header.seqId)
        else []
      some (index, taken.map fun i => index[i])

/-- The run after one more step. -/
def StreamRun.step (s : Sender) (w : StreamRun) (a : StreamStep) : StreamRun :=
  match a.action with
  | .poll nowMs => { w with toRun := w.toRun.step ⟨a.radio, .poll nowMs⟩ }
  | .arrive n nowMs =>
      let toRun := w.toRun.step ⟨a.radio, .onReceive w.toRun.node.peerMac (s.frame n) nowMs⟩
      match w.handing s n nowMs with
      | none => { w with toRun := toRun }
      | some (index, handed) => ⟨toRun, index, handed.getLastD w.prev⟩

def StreamRun.start (node : Node) : StreamRun := ⟨⟨node, []⟩, Vector.replicate rxCacheSize 0, 0⟩

/-- Every fragment the arrival hands over fits when its turn comes. -/
def HandsInSequence (s : Sender) (w : StreamRun) (a : StreamStep) : Prop :=
  match a.action with
  | .poll _ => True
  | .arrive n nowMs =>
      match w.handing s n nowMs with
      | none => True
      | some (_, handed) =>
          InSequence maxReassembly s.messages w.toRun.node.gathered w.prev handed

instance (s : Sender) (w : StreamRun) (a : StreamStep) : Decidable (HandsInSequence s w a) := by
  unfold HandsInSequence
  split
  · infer_instance
  · split <;> infer_instance

/-- Every entry holds its frame of the stream, the buffer the beginning of a message, and every
reassembled message was whole. -/
structure StreamInv (s : Sender) (w : StreamRun) : Prop where
  entries : ∀ i : Fin rxCacheSize, w.toRun.node.rxCache[i].inUse = true →
    ∃ mark, (stream s.messages)[w.index[i]]? = some (mark, w.toRun.node.rxCache[i].piece)
  halfway : Halfway s.messages w.toRun.node.gathered w.prev
  messages : ∀ src c q out, .message .reassembled src c q out ∈ w.toRun.history →
    ∃ parts, .cut parts ∈ s.messages ∧ out = parts.flatten

/-- Only a fragment is marked last. -/
theorem stream_last {ms : List (Message U8)} {n : Nat} {mark : Bool} {p : Piece U8}
    (h : (stream ms)[n]? = some (mark, p)) (hf : p.fragment = false) : p.last = false := by
  obtain ⟨_, m, _, j, _, _, hget⟩ := flatMap_split h
  cases m with
  | whole data =>
      unfold Message.pieces at hget
      rw [List.getElem?_singleton] at hget
      split at hget
      · rw [← (Prod.mk.inj (Option.some.inj hget)).2]
      · exact absurd hget (by simp)
  | cut parts =>
      obtain ⟨_, heq⟩ := cut_get hget
      rw [(Prod.mk.inj heq).2] at hf
      exact absurd hf (by simp)

theorem hasFlag_pieceFlags (p : Piece U8) :
    hasFlag (pieceFlags p) flagFragment = p.fragment
      ∧ hasFlag (pieceFlags p) flagLastFragment = (p.fragment && p.last) := by
  unfold pieceFlags
  cases p.fragment <;> cases p.last <;> decide

/-- A piece survives its flags. -/
theorem piece_flags {p : Piece U8} (h : p.fragment = false → p.last = false) (q : U16) :
    (⟨true, q, pieceFlags p, p.data⟩ : RxCache).piece = p := by
  obtain ⟨hfragment, hlast⟩ := hasFlag_pieceFlags p
  unfold RxCache.piece
  rw [hfragment, hlast]
  obtain ⟨fragment, last, data⟩ := p
  cases fragment with
  | true => rfl
  | false =>
      obtain rfl : last = false := h rfl
      rfl

/-- **What arrives is what was sent**: the header and payload of frame `n`. -/
theorem Sender.arrives {s : Sender} {node : Node} {n : Nat} {src : Mac} {header : Header}
    {channel : ChannelState} (h : Accepts node src (s.frame n) header channel) :
    ∃ mark p, (stream s.messages)[n]? = some (mark, p) ∧ header = s.header n p
      ∧ framePayload (s.frame n) = p.data := by
  have hdec := h.decoded
  have hnil : ∀ {mp : U16}, decodeHeader [] mp ≠ .ok header := by
    intro mp hd
    unfold decodeHeader at hd
    exact absurd hd (by simp)
  cases hget : (stream s.messages)[n]? with
  | none =>
      -- past the end of the stream there is no frame, and an empty one is not accepted
      unfold Sender.frame at hdec
      rw [hget] at hdec
      exact absurd hdec hnil
  | some x =>
      obtain ⟨mark, p⟩ := x
      refine ⟨mark, p, rfl, ?_⟩
      -- a piece too long for a frame is an empty frame too
      have hframe : s.frame n = [] ∨ FrameOf (s.frame n) (s.header n p) p.data := by
        unfold Sender.frame
        rw [hget]
        dsimp only
        split
        · exact Or.inl rfl
        · rename_i hlen
          have hmp := s.maxPayload.isLt
          cases henc : encodeHeader (s.header n p) s.maxPayload with
          | error e => exact Or.inl rfl
          | ok bytes =>
              refine Or.inr ⟨s.maxPayload, bytes, henc, rfl, ?_, ?_⟩
              · show (BitVec.ofNat 16 p.data.length).toNat = _
                rw [BitVec.toNat_ofNat, Nat.mod_eq_of_lt (by omega)]
              · show (pieceFlags p).toNat < 16
                unfold pieceFlags
                cases p.fragment <;> cases p.last <;> decide
      rcases hframe with hframe | hframe
      · rw [hframe] at hdec
        exact absurd hdec hnil
      · exact hframe.decode hdec

/-- The index of the cache after an arrival has been stored. -/
theorem StreamInv.store {s : Sender} {w : StreamRun} (h : StreamInv s w) {n : Nat} {mark : Bool}
    {p : Piece U8} (hp : (stream s.messages)[n]? = some (mark, p)) (i : Fin rxCacheSize)
    (hu : (rxCacheStore w.toRun.node (s.header n p) p.data).rxCache[i].inUse = true) :
    ∃ mark, (stream s.messages)[(match storeIdx w.toRun.node (s.header n p) with
        | none => w.index
        | some i => w.index.put i n)[i]]?
      = some (mark, (rxCacheStore w.toRun.node (s.header n p) p.data).rxCache[i].piece) := by
  rcases rxCacheStore_cases w.toRun.node (s.header n p) p.data with ⟨hidx, heq, _⟩ |
    ⟨j, hidx, _, _, heq⟩ <;> rw [hidx] <;> simp only [heq] at hu ⊢
  · exact h.entries i hu
  · by_cases hji : j = i
    · subst hji
      rw [put_self, put_self]
      refine ⟨mark, hp.trans ?_⟩
      exact congrArg some (Prod.ext rfl (piece_flags (stream_last hp) _).symm)
    · rw [put_ne hji] at hu
      rw [put_ne hji, put_ne hji]
      exact h.entries i hu

/-- Calls that bring no DATA. -/
theorem StreamInv.quiet {s : Sender} {w : StreamRun} (h : StreamInv s w) {node' : Node}
    {log : List Event} (hcache : node'.rxCache = w.toRun.node.rxCache)
    (hhalf : Halfway s.messages node'.gathered w.prev)
    (hlog : ∀ e ∈ log, e.NoDelivery w.toRun.node) :
    StreamInv s { w with toRun := ⟨node', w.toRun.history ++ log⟩ } := by
  refine ⟨fun i hu => ?_, hhalf, fun src c q out hm => ?_⟩
  · simp only [hcache] at hu ⊢
    exact h.entries i hu
  · rcases List.mem_append.mp hm with hm | hm
    · exact h.messages src c q out hm
    · exact absurd rfl (hlog _ hm).1.2

/-- **A frame arrives**, is stored under `index`, and what it makes deliverable is handed over. -/
theorem StreamInv.arrive {s : Sender} {w : StreamRun} (h : StreamInv s w) (radio : Radio)
    (src : Mac) {header : Header} {payload : List U8} {channel : ChannelState} (now : U32)
    (hch : w.toRun.node.reliableAt header.channelId = some channel)
    (index : Vector Nat rxCacheSize)
    (hindex : ∀ i : Fin rxCacheSize,
      (rxCacheStore w.toRun.node header payload).rxCache[i].inUse = true →
      ∃ mark, (stream s.messages)[index[i]]?
        = some (mark, (rxCacheStore w.toRun.node header payload).rxCache[i].piece))
    {handed : List Nat}
    (hhanded : handed = (if HasRoom channel header.seqId then
      handedOver (rxCacheStore w.toRun.node header payload).rxCache
        (deliverable channel.reliable header.seqId) else []).map fun i => index[i])
    (hguard : InSequence maxReassembly s.messages w.toRun.node.gathered w.prev handed) :
    StreamInv s
      ⟨⟨(receiveData radio (Call.start w.toRun.node) src header payload now).2.node,
        w.toRun.history
          ++ (receiveData radio (Call.start w.toRun.node) src header payload now).2.log⟩,
        index, handed.getLastD w.prev⟩ := by
  obtain ⟨channel', state', _, _, _, hcases⟩ := receiveData_spec radio src payload now hch
  -- storing the payload does not touch the message in reassembly
  have hgathered : (w.toRun.node.arrived header payload state').gathered
      = w.toRun.node.gathered := by
    unfold Node.arrived Node.gathered
    rw [rxCacheStore_frame]
  rcases hcases with ⟨hfull, heq⟩ | ⟨hroom, _, attempts, answer, hanswer, heq⟩ <;> rw [heq]
  · rw [if_neg hfull] at hhanded
    subst hhanded
    refine ⟨hindex, ?_, fun src' c q out hm =>
      h.messages src' c q out (by simpa [Call.start] using hm)⟩
    show Halfway s.messages (w.toRun.node.arrived header payload state').gathered w.prev
    rw [hgathered]
    exact h.halfway
  · rw [if_pos hroom] at hhanded
    subst hhanded
    obtain ⟨hhalf, hmessages⟩ := deliverAll_whole _ src header.channelId now
      (deliverable channel.reliable header.seqId)
      ⟨w.toRun.node.arrived header payload state', attempts, answer⟩ w.prev
      hindex (hgathered ▸ h.halfway) (by rw [hgathered]; exact hguard)
    refine ⟨fun i hu => ?_, hhalf, fun src' c q out hm => ?_⟩
    · have hkept := deliverAll_cache hu
      rw [hkept] at hu ⊢
      exact hindex i hu
    · rcases List.mem_append.mp hm with hm | hm
      · exact h.messages src' c q out hm
      · rcases hmessages _ hm with hold | hnew
        · -- the answer is a frame
          rcases hanswer with rfl | ⟨frame, rfl, _⟩
          · exact absurd hold (by simp)
          · exact absurd (List.mem_singleton.mp hold) (by simp)
        · exact hnew src' c q out rfl

/-- **One step keeps the invariant**, if what it hands over is in sequence. -/
theorem streamInv_step (s : Sender) (w : StreamRun) (a : StreamStep) (h : StreamInv s w)
    (hguard : HandsInSequence s w a) : StreamInv s (w.step s a) := by
  obtain ⟨radio, action⟩ := a
  cases action with
  | poll now =>
      have hq := poll_rx radio w.toRun.node now
      obtain ⟨hcache, hlog⟩ :=
        run_of_no_arrival radio (show arrival w.toRun.node (.poll now) = none from rfl)
      refine h.quiet hcache ?_ hlog
      show Halfway s.messages (poll radio w.toRun.node now).2.node.gathered w.prev
      rw [gathered_congr hq.node_quiet.assembling]
      -- the timeout forgets the message, or nothing has happened to it
      rcases pollReassembly_cases w.toRun.node now with heq | ⟨_, heq⟩ <;> rw [heq]
      · exact h.halfway
      · exact halfway_none _ _
  | arrive n now =>
      unfold HandsInSequence at hguard
      unfold StreamRun.step
      unfold StreamRun.handing at hguard ⊢
      dsimp only at hguard ⊢
      cases harr : arrival w.toRun.node (.onReceive w.toRun.node.peerMac (s.frame n) now) with
      | none =>
          obtain ⟨hcache, hlog⟩ := run_of_no_arrival radio harr
          refine h.quiet hcache ?_ hlog
          rcases onReceive_rx radio w.toRun.node w.toRun.node.peerMac (s.frame n) now with hq |
            ⟨header, channel, hacc, ht, _⟩
          · show Halfway s.messages
              (onReceive radio w.toRun.node w.toRun.node.peerMac (s.frame n) now).2.node.gathered _
            rw [gathered_congr hq.node_quiet.assembling]
            exact h.halfway
          · rw [arrival_of_accepts hacc ht] at harr
            exact absurd harr (by simp)
      | some x =>
          obtain ⟨header, payload, channel⟩ := x
          rw [harr] at hguard
          dsimp only at hguard ⊢
          obtain ⟨src, data, now', hcall, hacc, _, rfl⟩ := arrival_eq_some harr
          obtain ⟨rfl, rfl, rfl⟩ := ApiCall.onReceive.inj hcall
          -- the frame that arrives is frame `n` of the stream
          obtain ⟨mark, p, hp, rfl, hpayload⟩ := Sender.arrives hacc
          rw [hpayload] at harr hguard ⊢
          obtain ⟨src', now', hch, hrun⟩ := run_of_arrival radio harr
          unfold NodeRun.step
          dsimp only
          rw [hrun]
          exact h.arrive radio src' now' hch _ (fun i hu => h.store hp i hu) rfl hguard

/-! ## Whole runs -/

/-- What has been handed over as a reassembled message is, each time, one of the messages the
sender cut, from its first fragment to its last. -/
def WholeMessages (s : Sender) (w : StreamRun) : Prop :=
  ∀ src c q out, .message .reassembled src c q out ∈ w.toRun.history →
    ∃ parts, .cut parts ∈ s.messages ∧ out = parts.flatten

/-- **Reassembly is all or nothing**, in every run in which the fragments handed over are in
sequence. -/
theorem reassembled_whole {node₀ node : Node} {cfg : Config} (hinit : init node₀ cfg = (.ok, node))
    (s : Sender) (as : List StreamStep)
    (hguard : Along (StreamRun.step s) (HandsInSequence s) (StreamRun.start node) as) :
    WholeMessages s (run (StreamRun.step s) (StreamRun.start node) as) := by
  have hstart : StreamInv s (StreamRun.start node) := by
    obtain ⟨state, channel, rfl, _⟩ := init_ok hinit
    refine ⟨fun i hu => ?_, halfway_none _ _, fun src c q out hm => absurd hm ?_⟩
    · simp [StreamRun.start] at hu
    · simp [StreamRun.start]
  exact (invariant (streamInv_step s) hstart hguard).messages

/-- A peer that sends one message, in two fragments. -/
def twoParts : Sender := ⟨[.cut [[10#8], [20#8]]], 0#16, 1#8, 241#16⟩

def firstArrives : StreamStep := ⟨Radio.up, .arrive 0 0#32⟩
def secondArrives : StreamStep := ⟨Radio.up, .arrive 1 6001#32⟩

/-- The fragments arrive one after the other. -/
def halfArrived : StreamRun := (StreamRun.start listenNode).step twoParts firstArrives
def bothArrived : StreamRun := halfArrived.step twoParts secondArrives

theorem reassembled_whole_both :
    WholeMessages twoParts bothArrived
      ∧ .message .reassembled listenNode.peerMac 1#8 0#16 [10#8, 20#8]
        ∈ bothArrived.toRun.history := by
  have hguard : Along (StreamRun.step twoParts) (HandsInSequence twoParts)
      (StreamRun.start listenNode) [firstArrives, secondArrives] :=
    Along.cons (by decide +kernel) <|
      Along.cons (show HandsInSequence twoParts halfArrived secondArrives by decide +kernel) trivial
  have hinit : init Node.zero listenConfig = (.ok, listenNode) := Prod.ext (by decide +kernel) rfl
  have h := reassembled_whole hinit twoParts _ hguard
  simp only [run_cons, run_nil] at h
  exact ⟨h, by decide +kernel⟩

/-- The node is polled after the reassembly timeout, and the second fragment arrives then. -/
def latePoll : StreamStep := ⟨Radio.up, .poll 6000#32⟩
def timedOut : StreamRun := halfArrived.step twoParts latePoll
def tailArrived : StreamRun := timedOut.step twoParts secondArrives

/-- **After a timeout the tail of a message is delivered as a message.** -/
theorem reassembled_not_whole :
    ¬ ∀ (node₀ node : Node) (cfg : Config), init node₀ cfg = (.ok, node) →
      ∀ (s : Sender) (as : List StreamStep),
        WholeMessages s (run (StreamRun.step s) (StreamRun.start node) as) := by
  intro h
  have hrun := h Node.zero listenNode listenConfig (Prod.ext (by decide +kernel) rfl) twoParts
    [firstArrives, latePoll, secondArrives]
  simp only [run_cons, run_nil] at hrun
  have hwhole : WholeMessages twoParts tailArrived := hrun
  obtain ⟨parts, hparts, hout⟩ := hwhole listenNode.peerMac 1#8 1#16 [20#8] (by decide +kernel)
  rw [show twoParts.messages = [.cut [[10#8], [20#8]]] from rfl, List.mem_singleton] at hparts
  rw [Message.cut.inj hparts] at hout
  exact absurd hout (by decide)

end Relinow
