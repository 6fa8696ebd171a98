import Relinow.Proof.Fragments
import Relinow.Proof.Frontier

/-!
# Fragments in any order

A message whose fragments fit into the reorder buffer arrives, however the network
shuffles and repeats them. Number the fragments from 0. What has arrived so far is a
set of numbers, and everything on the receive side is a function of it: the engine
expects the first number missing from the set, the reorder buffer holds the numbers
beyond it, the cache holds their payloads, and the reassembly buffer holds the
fragments before it, put together.

When nothing is missing any more, all fragments are in the reassembly buffer.
-/

namespace Relinow

open SlotTable Runs Pieces

/-! ## The fragments in a node -/

theorem fragmentFlags_has (n j : Nat) :
    hasFlag (fragmentFlags n j) flagFragment = true
      ∧ (hasFlag (fragmentFlags n j) flagLastFragment = true ↔ j + 1 = n) := by
  unfold fragmentFlags
  split
  · rename_i hlast
    exact ⟨by decide, fun _ => hlast, fun _ => by decide⟩
  · rename_i hmore
    exact ⟨by decide, fun h => absurd h (by decide), fun h => absurd h hmore⟩

/-- A cache entry holds a fragment of the message. -/
def IsPart (q : U16) (parts : List (List U8)) (entry : RxCache) : Prop :=
  ∃ (j : Nat) (hj : j < parts.length),
    entry = ⟨true, q + BitVec.ofNat 16 j, fragmentFlags parts.length j, parts[j]⟩

/-- The cache holds fragments of one message only, and those before number `e` are in reassembly,
until the last completes it. -/
structure Gathers (q : U16) (parts : List (List U8)) (node : Node) (e : Nat) : Prop where
  onMessage : node.onMessage = true
  entries : ∀ i : Fin rxCacheSize, node.rxCache[i].inUse = true → IsPart q parts node.rxCache[i]
  nodup : (arrivedSeqs node).Nodup
  active : node.reassemblyActive = true ↔ 0 < e ∧ e < parts.length
  buffer : node.reassemblyActive = true →
    node.reassemblyFirstSeq = q ∧ node.reassemblyBuf = (parts.take e).flatten

/-- The message, once its last fragment is in. -/
def completed (q : U16) (parts : List (List U8)) (e : Nat) : List (U16 × List U8) :=
  if e = parts.length then [(q, parts.flatten)] else []

section Gathers

variable {q : U16} {parts : List (List U8)} {node : Node} {e : Nat}

theorem flatten_take_succ {parts : List (List U8)} {e : Nat} (he : e < parts.length) :
    (parts.take e).flatten ++ parts[e] = (parts.take (e + 1)).flatten := by
  rw [List.take_succ_eq_append_getElem he, List.flatten_append, List.flatten_singleton]

theorem length_take_le (parts : List (List U8)) (e : Nat) :
    (parts.take e).flatten.length ≤ parts.flatten.length := by
  have hlen := congrArg List.length (congrArg List.flatten (List.take_append_drop e parts))
  rw [List.flatten_append, List.length_append] at hlen
  omega

/-- The message in reassembly when fragment `e` is handed over. -/
theorem Gathers.start (h : Gathers q parts node e) (he : e < parts.length) (now : U32) :
    (reassemblyStart node (q + BitVec.ofNat 16 e) now).reassemblyActive = true
      ∧ (reassemblyStart node (q + BitVec.ofNat 16 e) now).reassemblyFirstSeq = q
      ∧ (reassemblyStart node (q + BitVec.ofNat 16 e) now).reassemblyBuf
        = (parts.take e).flatten := by
  unfold reassemblyStart
  cases hactive : node.reassemblyActive with
  | true => exact ⟨hactive, h.buffer hactive⟩
  | false =>
      -- none is active before the first fragment only
      have hzero : e = 0 := by
        by_contra hpos
        have := h.active.mpr ⟨by omega, he⟩
        rw [hactive] at this
        exact absurd this (by decide)
      subst hzero
      exact ⟨rfl, BitVec.add_zero q, rfl⟩

/-- **Fragment `e` is handed over**: it is appended, and the last one completes the message. -/
theorem Gathers.deliverFragment {k : Call} (h : Gathers q parts k.node e) (he : e < parts.length)
    (hsize : parts.flatten.length ≤ maxReassembly) (src : Mac) (c : U8) (now : U32) :
    let k' := deliverFragment k src c now
      ⟨true, q + BitVec.ofNat 16 e, fragmentFlags parts.length e, parts[e]⟩
    (k'.node.reassemblyActive = true ↔ 0 < e + 1 ∧ e + 1 < parts.length)
      ∧ (k'.node.reassemblyActive = true → k'.node.reassemblyFirstSeq = q
        ∧ k'.node.reassemblyBuf = (parts.take (e + 1)).flatten)
      ∧ deliveredPackets k'.log = deliveredPackets k.log ++ completed q parts (e + 1) := by
  obtain ⟨hactive, hfirst, hbuf⟩ := h.start he now
  obtain ⟨-, hlast⟩ := fragmentFlags_has parts.length e
  have hfits : ¬ maxReassembly < (parts.take e).flatten.length + parts[e].length := by
    rw [← List.length_append, flatten_take_succ he]
    have := length_take_le parts (e + 1)
    omega
  unfold Relinow.deliverFragment completed
  dsimp only
  rw [hbuf, hfirst, if_neg hfits, flatten_take_succ he]
  by_cases hend : e + 1 = parts.length
  · -- the last fragment resets the buffer and raises the message
    rw [if_pos (hlast.mpr hend), if_pos hend]
    refine ⟨⟨fun ha => absurd ha (by simp [Call.setNode, reassemblyReset]), fun hlt => by omega⟩,
      fun ha => absurd ha (by simp [Call.setNode, reassemblyReset]), ?_⟩
    show deliveredPackets (raiseMessage _ _ _ _ _ _).log = _
    have hon : (reassemblyStart k.node (q + BitVec.ofNat 16 e) now).onMessage = true := by
      unfold reassemblyStart
      split <;> exact h.onMessage
    rw [raiseMessage_log, deliveredPackets_append, hend, List.take_length]
    exact congrArg (deliveredPackets k.log ++ deliveredPackets ·) (if_pos hon)
  · rw [if_neg (fun hl => hend (hlast.mp hl)), if_neg hend, List.append_nil]
    exact ⟨⟨fun _ => ⟨by omega, by omega⟩, fun _ => hactive⟩, fun _ => ⟨rfl, rfl⟩, rfl⟩

/-- **The round of fragment `e`.** -/
theorem Gathers.deliverOne {k : Call} (h : Gathers q parts k.node e) (he : e < parts.length)
    (hfew : parts.length ≤ maxReorder) (hsize : parts.flatten.length ≤ maxReassembly)
    (hcached : q + BitVec.ofNat 16 e ∈ arrivedSeqs k.node) (src : Mac) (c : U8) (now : U32) :
    Gathers q parts (deliverOne src c now k (q + BitVec.ofNat 16 e)).node (e + 1)
      ∧ deliveredPackets (deliverOne src c now k (q + BitVec.ofNat 16 e)).log
        = deliveredPackets k.log ++ completed q parts (e + 1) := by
  have hmax : maxReorder = 8 := rfl
  have hentries : ∀ i : Fin rxCacheSize,
      (Relinow.deliverOne src c now k (q + BitVec.ofNat 16 e)).node.rxCache[i].inUse = true →
      IsPart q parts (Relinow.deliverOne src c now k (q + BitVec.ofNat 16 e)).node.rxCache[i] := by
    intro i hu
    have hkept := deliverOne_cache hu
    rw [hkept] at hu ⊢
    exact h.entries i hu
  -- the entry of `e` was the only one with its id
  have hnodup : (arrivedSeqs
      (Relinow.deliverOne src c now k (q + BitVec.ofNat 16 e)).node).Nodup := by
    rcases deliverOne_taken src c now k (q + BitVec.ofNat 16 e) with ⟨hno, _⟩ | htaken
    · exact absurd hcached hno
    · have hnd := h.nodup
      rw [htaken, Multiset.nodup_cons] at hnd
      exact hnd.2
  have hon : (Relinow.deliverOne src c now k (q + BitVec.ofNat 16 e)).node.onMessage = true := by
    rw [(HandsOver.deliverOne src c now k _).node_eq]
    exact h.onMessage
  rcases deliverOne_cases src c now k (q + BitVec.ofNat 16 e) with
    ⟨hno, _⟩ | ⟨i, _, hu, hid, hcases⟩
  · exact absurd hcached hno
  · -- the entry found is fragment `e`
    obtain ⟨j, hj, hentry⟩ := h.entries i hu
    rw [hentry] at hid hcases
    obtain rfl := add_ofNat_inj (by omega) (by omega) hid
    rcases hcases with ⟨_, heq⟩ | ⟨hno, _⟩
    · obtain ⟨hactive, hbuf, hlog⟩ := h.deliverFragment he hsize src c now
      refine ⟨⟨hon, hentries, hnodup, ?_, ?_⟩, ?_⟩ <;> rw [heq]
      · exact hactive
      · exact hbuf
      · exact hlog
    · rw [(fragmentFlags_has parts.length j).1] at hno
      exact absurd hno (by decide)

/-- **The delivery loop** hands the fragments from `e` on over. -/
theorem Gathers.deliverAll (hfew : parts.length ≤ maxReorder)
    (hsize : parts.flatten.length ≤ maxReassembly) (src : Mac) (c : U8) (now : U32) :
    ∀ (len e : Nat) (k : Call), Gathers q parts k.node e → e + len ≤ parts.length →
      (∀ i, e ≤ i → i < e + len → q + BitVec.ofNat 16 i ∈ arrivedSeqs k.node) →
      Gathers q parts (((List.range' e len).map (fun i => q + BitVec.ofNat 16 i)).foldl
          (Relinow.deliverOne src c now) k).node (e + len)
        ∧ deliveredPackets (((List.range' e len).map (fun i => q + BitVec.ofNat 16 i)).foldl
            (Relinow.deliverOne src c now) k).log
          = deliveredPackets k.log ++ if len = 0 then [] else completed q parts (e + len) := by
  intro len
  induction len with
  | zero => exact fun e k h _ _ => ⟨h, (List.append_nil _).symm⟩
  | succ len ih =>
      intro e k h hle hcached
      have hmax : maxReorder = 8 := rfl
      obtain ⟨hg, hlog⟩ :=
        h.deliverOne (by omega) hfew hsize (hcached e (by omega) (by omega)) src c now
      rw [List.range'_succ, List.map_cons, List.foldl_cons]
      -- the ids still to come stay in the cache, since they are not `e`
      obtain ⟨hg', hlog'⟩ := ih (e + 1) _ hg (by omega) fun i hi hlt =>
        arrivedSeqs_deliverOne (hcached i (by omega) (by omega)) fun heq => by
          have := add_ofNat_inj (by omega) (by omega) heq
          omega
      rw [show e + (len + 1) = e + 1 + len by omega]
      refine ⟨hg', ?_⟩
      rw [hlog', hlog, List.append_assoc, if_neg (Nat.succ_ne_zero len)]
      refine congrArg _ ?_
      unfold completed
      by_cases h0 : len = 0
      · subst h0
        rw [if_pos rfl, List.append_nil]
      · rw [if_neg (show ¬ e + 1 = parts.length by omega), if_neg h0]
        rfl

/-- **A fragment arrives** and is cached, if it is not cached already. -/
theorem Gathers.arrived (h : Gathers q parts node e) (hfew : parts.length ≤ maxReorder) {j : Nat}
    (hj : j < parts.length) (c : U8) (state : State) :
    let node' := node.arrived (dataHeader c (fragmentFlags parts.length j) (q + BitVec.ofNat 16 j)
      parts[j]) parts[j] state
    Gathers q parts node' e ∧ q + BitVec.ofNat 16 j ∈ arrivedSeqs node'
      ∧ ∀ d ∈ arrivedSeqs node, d ∈ arrivedSeqs node' := by
  have hmax : maxReorder = 8 := rfl
  -- eight fragments leave one of the nine entries free
  have hfree : (arrivedSeqs node).card ≠ rxCacheSize := by
    have hsub : (arrivedSeqs node).toFinset
        ⊆ (Finset.range parts.length).image (fun i => q + BitVec.ofNat 16 i) := by
      intro d hd
      obtain ⟨i, hu, rfl⟩ := mem_keys.mp (Multiset.mem_toFinset.mp hd)
      obtain ⟨j, hj, hentry⟩ := h.entries i hu
      rw [hentry]
      exact Finset.mem_image_of_mem _ (Finset.mem_range.mpr hj)
    have hcard := (Finset.card_le_card hsub).trans Finset.card_image_le
    rw [Multiset.toFinset_card_of_nodup h.nodup, Finset.card_range] at hcard
    have hsize : rxCacheSize = 9 := rfl
    omega
  intro node'
  have hframe : node' = { node with rxCache := node'.rxCache, state := state } :=
    arrived_frame node _ _ state
  have hentries : ∀ i : Fin rxCacheSize, node'.rxCache[i].inUse = true →
      IsPart q parts node'.rxCache[i] := arrived_entries h.entries ⟨j, hj, rfl⟩ state
  have hgathers : (arrivedSeqs node').Nodup → Gathers q parts node' e := fun hnodup => by
    refine ⟨?_, hentries, hnodup, ?_, ?_⟩ <;> rw [hframe]
    · exact h.onMessage
    · exact h.active
    · exact h.buffer
  rcases arrivedSeqs_store node (dataHeader c (fragmentFlags parts.length j)
      (q + BitVec.ofNat 16 j) parts[j]) parts[j] with ⟨hsame, hin | hfull⟩ | ⟨hno, hnew⟩
  · have hkeys : arrivedSeqs node' = arrivedSeqs node := hsame
    rw [hkeys] at hgathers ⊢
    exact ⟨hgathers h.nodup, hin, fun d hd => hd⟩
  · exact absurd hfull hfree
  · have hkeys : arrivedSeqs node' = (q + BitVec.ofNat 16 j) ::ₘ arrivedSeqs node := hnew
    rw [hkeys] at hgathers ⊢
    exact ⟨hgathers (Multiset.nodup_cons.mpr ⟨hno, h.nodup⟩), Multiset.mem_cons_self _ _,
      fun d hd => Multiset.mem_cons_of_mem hd⟩

end Gathers

end Relinow
