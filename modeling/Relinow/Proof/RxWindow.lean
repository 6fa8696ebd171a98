import Relinow.Proof.InOrderQueue
import Relinow.Proof.SerialOrder
import Relinow.Lib.Window
import Mathlib.Algebra.Order.Group.Abs

/-!
# The receive engine is a window over the packet numbers

A sender numbers its packets without end, and the ids on the wire are what is left
of the numbers. As long as no packet arrives that is 32768 numbers or more away
from the one awaited, that is enough: the engine answers as a receiver would that
saw the numbers themselves, kept the set of those it took in, and held back at most
eight beyond the first gap. Its table, its flush loop and the wrap are not to be
seen from outside.

So the numbers alone say when a packet is dropped, and a sender that stays within
eight of the first packet missing never has one dropped.
-/

namespace Relinow

open SlotTable InOrder Runs

/-- A number's id, read as that number while it is near. -/
def seqCoding : Coding intSpace seqSpace where
  code := seqOf
  near := fun q e => |q - e| ≤ 32767
  near_self := fun e => by simp
  near_succ := by
    intro q e hnear hnew
    have hlt := intSpace_newer.mp hnew
    have habs := abs_le.mp hnear
    show |q - (e + 1)| ≤ 32767
    exact abs_le.mpr ⟨by omega, by omega⟩
  succ := fun e => (seqNext_seqOf e).symm
  newer := by
    intro q e hnear
    rw [Bool.eq_iff_iff, intSpace_newer]
    exact isSeqNewer_seqOf hnear
  inj := by
    intro q q' e hq hq' heq
    have hval := congrArg (fun x : U16 => (x.toNat : Int)) heq
    simp only [seqOf_toNat] at hval
    have habs := abs_le.mp hq
    have habs' := abs_le.mp hq'
    omega

/-- The engine's word for a verdict. -/
def rxStatusOf : Verdict → RxStatus
  | .delivered => .delivered
  | .early => .outOfOrder
  | .stale => .duplicate
  | .refused => .dropped

theorem rxStatusOf_verdict (s : RxStatus) : rxStatusOf s.verdict = s := by
  cases s <;> rfl

/-- The call that brings the packet numbered `n`, as the window answers it. -/
def windowCall (w : Window) (n : Int) : RxCall :=
  { seq := seqOf n
    result :=
      { status := rxStatusOf (w.verdict maxReorder n)
        deliveredSeq := (w.released maxReorder n).map seqOf
        ackId := seqOf ((w.take maxReorder n).next - 1) } }

/-- The calls that bring these packets, as the window answers them. -/
def windowHistory : Window → List Int → List RxCall
  | _, [] => []
  | w, n :: ns => windowCall w n :: windowHistory (w.take maxReorder n) ns

/-- The context holds the ids of what the window holds. -/
structure HoldsWindow (w : Window) (ctx : ReliableCtx) : Prop where
  inv : RxInv ctx
  queue : rxQueueOf ctx = seqCoding.queue w.queue
  near : seqCoding.Near w.queue

theorem HoldsWindow.expected {w : Window} {ctx : ReliableCtx} (h : HoldsWindow w ctx) :
    ctx.hasRxWindow = true ∧ ctx.expectedRxSeq = seqOf w.next := by
  have hnext := congrArg Queue.next h.queue
  cases hw : ctx.hasRxWindow with
  | false =>
      rw [rxQueueOf_closed hw] at hnext
      exact absurd hnext (by simp [Coding.queue, Window.queue])
  | true =>
      rw [rxQueueOf_open hw] at hnext
      exact ⟨rfl, Option.some.inj hnext⟩

theorem HoldsWindow.held {w : Window} {ctx : ReliableCtx} (h : HoldsWindow w ctx) :
    reorderSeqs ctx = w.early.val.map seqOf := by
  have hheld : (reorderSeqs ctx).toFinset = w.early.image seqOf := congrArg Queue.held h.queue
  have hinj : ∀ x ∈ w.early, ∀ y ∈ w.early, seqOf x = seqOf y → x = y := fun x hx y hy heq =>
    seqCoding.inj (h.near.held w.next rfl x hx).1 (h.near.held w.next rfl y hy).1 heq
  have hval := congrArg Finset.val hheld
  rwa [Multiset.toFinset_val, h.inv.nodup.dedup, Finset.image_val_of_injOn hinj] at hval

/-- What the engine reports is what the window says, once the queues agree. -/
theorem windowCall_eq {w : Window} {ctx : ReliableCtx} {n : Int}
    (hv : (reliableOnData ctx (seqOf n)).2.status.verdict = w.verdict maxReorder n)
    (hds : (reliableOnData ctx (seqOf n)).2.deliveredSeq = (w.released maxReorder n).map seqOf)
    (hexp : (reliableOnData ctx (seqOf n)).1.expectedRxSeq = seqOf (w.take maxReorder n).next) :
    (⟨seqOf n, (reliableOnData ctx (seqOf n)).2⟩ : RxCall) = windowCall w n := by
  have hack : (reliableOnData ctx (seqOf n)).2.ackId
      = seqOf ((w.take maxReorder n).next - 1) := by
    rw [reliableOnData_ackId, hexp]
    exact SerialNumber.ofInt_sub _ 1
  have hstatus := rxStatusOf_verdict (reliableOnData ctx (seqOf n)).2.status
  rw [hv] at hstatus
  unfold windowCall
  rw [hstatus, ← hds, ← hack]

/-- **A packet near the one awaited** is answered as the window answers it. -/
theorem HoldsWindow.onData {w : Window} {ctx : ReliableCtx} (h : HoldsWindow w ctx) {n : Int}
    (hn : |n - w.next| ≤ 32767) :
    (⟨seqOf n, (reliableOnData ctx (seqOf n)).2⟩ : RxCall) = windowCall w n
      ∧ HoldsWindow (w.take maxReorder n) (reliableOnData ctx (seqOf n)).1 := by
  obtain ⟨hrecv, hinv⟩ := reliableOnData_refines h.inv (seqOf n)
  obtain ⟨hcode, hnear⟩ := (w.receive maxReorder n).code h.near fun e he => by
    obtain rfl := Option.some.inj he
    exact hn
  rw [h.queue] at hrecv
  obtain ⟨hv, hds, hq⟩ := hrecv.unique hcode
  have hafter : HoldsWindow (w.take maxReorder n) (reliableOnData ctx (seqOf n)).1 :=
    ⟨hinv, hq, hnear⟩
  exact ⟨windowCall_eq hv hds hafter.expected.2, hafter⟩

/-- The window before the first packet, if that one has the number `n`. -/
def windowAt (n : Int) : Window := ⟨n, ∅⟩

theorem windowAt_next (n : Int) : (windowAt n).next = n := rfl

theorem windowAt_take (n : Int) : (windowAt n).take maxReorder n = ⟨n, {n}⟩ :=
  Window.take_of_fits ((windowAt n).fits_next maxReorder)

theorem windowAt_take_next (n : Int) : ((windowAt n).take maxReorder n).next = n + 1 := by
  rw [windowAt_take]
  refine Window.next_eq (by simp) (fun i h1 h2 => ?_) (by simp)
  rw [Finset.mem_singleton]
  dsimp only at h1
  omega

/-- **The first packet**, whatever its number, opens the window at it. -/
theorem firstData_holds (cfg : Option ReliableConfig) (n : Int) :
    (⟨seqOf n, (reliableOnData (reliableInit cfg) (seqOf n)).2⟩ : RxCall)
        = windowCall (windowAt n) n
      ∧ HoldsWindow ((windowAt n).take maxReorder n)
          (reliableOnData (reliableInit cfg) (seqOf n)).1 := by
  have hnext := windowAt_take_next n
  have hearly : ((windowAt n).take maxReorder n).early = ∅ := by
    refine Finset.eq_empty_of_forall_notMem fun x hx => ?_
    obtain ⟨hx, hgt⟩ := Window.mem_early.mp hx
    rw [windowAt_take, Finset.mem_singleton] at hx
    omega
  have hopen : reliableOnData (reliableInit cfg) (seqOf n)
      = ({ reliableInit cfg with hasRxWindow := true, expectedRxSeq := seqNext (seqOf n) },
          ⟨.delivered, [seqOf n], seqOf n⟩) := rfl
  have hexp : (reliableOnData (reliableInit cfg) (seqOf n)).1.expectedRxSeq
      = seqOf ((windowAt n).take maxReorder n).next := by
    rw [hopen, hnext]
    exact seqNext_seqOf n
  refine ⟨windowCall_eq ?_ ?_ hexp, (reliableOnData_refines (rxInv_init cfg) _).2, ?_, ?_⟩
  · rw [hopen]
    exact (if_pos rfl).symm
  · have hone : ((windowAt n).take maxReorder n).next - (windowAt n).next = 1 := by
      rw [hnext, windowAt_next]
      omega
    rw [hopen]
    unfold Window.released
    rw [hone]
    rfl
  · rw [rxQueueOf_open (reliableOnData_opens _ _), hexp]
    unfold Coding.queue Window.queue
    rw [hearly, hopen]
    refine congrArg _ (Multiset.toFinset_eq_empty.mpr ?_)
    exact reorderSeqs_init cfg
  · unfold Window.queue
    rw [hearly]
    exact ⟨fun e _ x hx => absurd hx (Finset.notMem_empty x), fun _ => rfl⟩

/-! ## Whole histories -/

/-- The packet is fewer than 32768 numbers away from the one awaited. -/
def InReach (w : Window) (n : Int) : Prop := |n - w.next| ≤ 32767

instance (w : Window) (n : Int) : Decidable (InReach w n) := by
  unfold InReach
  exact inferInstance

theorem HoldsWindow.feed {ns : List Int} : ∀ {w : Window} {ctx : ReliableCtx} (h : List RxCall),
    HoldsWindow w ctx → Along (Window.take maxReorder) InReach w ns →
      ((ns.map seqOf).foldl rxFeed (h, ctx)).1 = h ++ windowHistory w ns
        ∧ HoldsWindow (run (Window.take maxReorder) w ns)
            ((ns.map seqOf).foldl rxFeed (h, ctx)).2 := by
  induction ns with
  | nil => exact fun h hw _ => ⟨(List.append_nil h).symm, hw⟩
  | cons n ns ih =>
      intro w ctx h hw hreach
      obtain ⟨hcall, hnext⟩ := hw.onData hreach.1
      obtain ⟨hrest, hend⟩ := ih (h ++ [windowCall w n]) hnext hreach.2
      rw [List.map_cons, List.foldl_cons, rxFeed, hcall]
      rw [List.append_assoc] at hrest
      exact ⟨hrest, hend⟩

/-- **The engine is the window**, from the first packet on. -/
theorem rxHistory_holds (cfg : Option ReliableConfig) (n : Int) {ns : List Int}
    (hreach : Along (Window.take maxReorder) InReach (windowAt n) (n :: ns)) :
    (rxHistory cfg ((n :: ns).map seqOf)).1 = windowHistory (windowAt n) (n :: ns)
      ∧ HoldsWindow (run (Window.take maxReorder) (windowAt n) (n :: ns))
          (rxHistory cfg ((n :: ns).map seqOf)).2 := by
  obtain ⟨hcall, hfirst⟩ := firstData_holds cfg n
  unfold rxHistory
  rw [List.map_cons, List.foldl_cons, rxFeed, hcall]
  exact hfirst.feed _ hreach.2

/--
**The receive half is a window over the packet numbers.** Any packets arrive, in any
order, early, late or repeated, none 32768 numbers or more away from the first one
missing. Then every call reports and delivers what the window says of the numbers;
the expected id is that of the first number missing, and the reorder buffer holds
the ids of the numbers taken in beyond it, each once.
-/
theorem rxHistory_isWindow (cfg : Option ReliableConfig) (n : Int) (ns : List Int)
    (hreach : Along (Window.take maxReorder) InReach (windowAt n) (n :: ns)) :
    (rxHistory cfg ((n :: ns).map seqOf)).1 = windowHistory (windowAt n) (n :: ns)
      ∧ (rxHistory cfg ((n :: ns).map seqOf)).2.expectedRxSeq
          = seqOf (run (Window.take maxReorder) (windowAt n) (n :: ns)).next
      ∧ reorderSeqs (rxHistory cfg ((n :: ns).map seqOf)).2
          = (run (Window.take maxReorder) (windowAt n) (n :: ns)).early.val.map seqOf := by
  obtain ⟨hhist, hholds⟩ := rxHistory_holds cfg n hreach
  exact ⟨hhist, hholds.expected.2, hholds.held⟩

/-- Around the wrap: eight packets wait for 65536, the ninth is dropped, and all eight go when it
comes. -/
def gapArrivals : List Int :=
  [65537, 65538, 65539, 65540, 65541, 65542, 65543, 65544, 65545, 65536]

theorem gapArrivals_window :
    (rxHistory none ((65535 :: gapArrivals).map seqOf)).1
        = windowHistory (windowAt 65535) (65535 :: gapArrivals)
      ∧ (rxHistory none ((65535 :: gapArrivals).map seqOf)).2.expectedRxSeq = 9#16 := by
  have h := rxHistory_isWindow none 65535 gapArrivals (by decide +kernel)
  exact ⟨h.1, h.2.1.trans (by decide +kernel)⟩

/-! ## What the window has room for -/

theorem rxStatusOf_dropped {v : Verdict} : rxStatusOf v = .dropped ↔ v = .refused := by
  cases v <;> simp [rxStatusOf]

/-- A packet is dropped when it does not fit. -/
theorem windowCall_dropped {w : Window} {n : Int} :
    (windowCall w n).result.status = .dropped ↔ ¬ w.Fits maxReorder n :=
  rxStatusOf_dropped.trans Window.verdict_refused

/-- No packet so far was dropped. -/
def NoneDropped (h : List RxCall) : Prop := ∀ c ∈ h, c.result.status ≠ .dropped

theorem noneDropped_append {h h' : List RxCall} :
    NoneDropped (h ++ h') ↔ NoneDropped h ∧ NoneDropped h' := List.forall_mem_append

theorem noneDropped_before {qs : List U16} : ∀ {s : List RxCall × ReliableCtx},
    NoneDropped (qs.foldl rxFeed s).1 → NoneDropped s.1 := by
  induction qs with
  | nil => exact fun h => h
  | cons q qs ih => exact fun h => (noneDropped_append.mp (ih h)).1

/-- **Fed further, the engine drops nothing as long as everything fits**, and then it is the window
of all that arrived. -/
theorem HoldsWindow.noneDropped_iff {ns : List Int} : ∀ {w : Window} {ctx : ReliableCtx}
    (h : List RxCall), HoldsWindow w ctx → NoneDropped h → Along Window.add InReach w ns →
      (NoneDropped ((ns.map seqOf).foldl rxFeed (h, ctx)).1
        ↔ Along Window.add (Window.Fits maxReorder) w ns) := by
  induction ns with
  | nil => exact fun _ _ hnone _ => ⟨fun _ => trivial, fun _ => hnone⟩
  | cons n ns ih =>
      intro w ctx h hw hnone hreach
      obtain ⟨hcall, hnext⟩ := hw.onData hreach.1
      rw [List.map_cons, List.foldl_cons, rxFeed, hcall]
      by_cases hfits : w.Fits maxReorder n
      · rw [Window.take_of_fits hfits] at hnext
        have hkept : NoneDropped (h ++ [windowCall w n]) := by
          refine noneDropped_append.mpr ⟨hnone, fun c hc => ?_⟩
          obtain rfl := List.mem_singleton.mp hc
          exact fun hd => windowCall_dropped.mp hd hfits
        rw [ih _ hnext hkept hreach.2]
        exact ⟨fun hrest => ⟨hfits, hrest⟩, fun hall => hall.2⟩
      · -- what was dropped once stays in the history
        refine ⟨fun hall => ?_, fun hall => absurd hall.1 hfits⟩
        have hlast := (noneDropped_append.mp (noneDropped_before hall)).2 _
          (List.mem_singleton_self _)
        exact absurd (windowCall_dropped.mpr hfits) hlast

/-- What a window delivers along a run is the run of numbers it moves over. -/
theorem deliveredSoFar_windowHistory {ns : List Int} : ∀ {w : Window},
    deliveredSoFar (windowHistory w ns)
      = (ints w.next ((run (Window.take maxReorder) w ns).next - w.next).toNat).map seqOf := by
  induction ns with
  | nil =>
      intro w
      rw [run_nil, sub_self]
      rfl
  | cons n ns ih =>
      intro w
      have hstep := w.ints_step maxReorder n _ ((w.take maxReorder n).next_le_run maxReorder ns)
      have hcons : deliveredSoFar (windowHistory w (n :: ns))
          = (w.released maxReorder n).map seqOf
            ++ deliveredSoFar (windowHistory (w.take maxReorder n) ns) := rfl
      rw [hcons, ih, ← List.map_append, hstep, run_cons]

/--
**Exactly how much reordering the receiver absorbs.** Packets arrive in any order,
each within 32767 numbers of the first one missing among all that came before it.
No packet is dropped exactly if each one fits: it is not beyond the first one
missing, or came before, or fewer than eight different ones wait beyond the gap.
Then all that arrived from the first packet up to the first one missing has been
delivered, in order. So nothing is dropped as long as no packet is more than eight
ahead of the first one missing.
-/
theorem rxHistory_noneDropped_iff (cfg : Option ReliableConfig) (n : Int) (ns : List Int)
    (hreach : Along Window.add InReach (windowAt n) (n :: ns)) :
    (NoneDropped (rxHistory cfg ((n :: ns).map seqOf)).1
        ↔ Along Window.add (Window.Fits maxReorder) (windowAt n) (n :: ns))
      ∧ (NoneDropped (rxHistory cfg ((n :: ns).map seqOf)).1 →
          deliveredSoFar (rxHistory cfg ((n :: ns).map seqOf)).1
            = (ints n ((run Window.add (windowAt n) (n :: ns)).next - n).toNat).map seqOf)
      ∧ (Along Window.add (fun w n => n ≤ w.next + maxReorder) (windowAt n) (n :: ns) →
          NoneDropped (rxHistory cfg ((n :: ns).map seqOf)).1) := by
  have hiff : NoneDropped (rxHistory cfg ((n :: ns).map seqOf)).1
      ↔ Along Window.add (Window.Fits maxReorder) (windowAt n) (n :: ns) := by
    obtain ⟨hcall, hfirst⟩ := firstData_holds cfg n
    have hfits := (windowAt n).fits_next maxReorder
    rw [windowAt_next] at hfits
    rw [Window.take_of_fits hfits] at hfirst
    have hone : NoneDropped [windowCall (windowAt n) n] := fun c hc => by
      obtain rfl := List.mem_singleton.mp hc
      exact fun hd => windowCall_dropped.mp hd hfits
    unfold rxHistory
    rw [List.map_cons, List.foldl_cons, rxFeed, hcall]
    refine (hfirst.noneDropped_iff _ hone hreach.2).trans ?_
    exact ⟨fun hrest => ⟨hfits, hrest⟩, fun hall => hall.2⟩
  refine ⟨hiff, fun hnone => ?_, fun hle => hiff.mpr ?_⟩
  · have hfits := hiff.mp hnone
    have htake : Along (Window.take maxReorder) InReach (windowAt n) (n :: ns) :=
      Window.along_take_of_fits hfits hreach
    rw [(rxHistory_holds cfg n htake).1, deliveredSoFar_windowHistory,
      Window.run_take_of_fits hfits, windowAt_next]
  · refine Window.along_fits_of_le (fun x hx => ?_) hle
    exact absurd (Window.mem_early.mp hx).1 (Finset.notMem_empty x)

/-- Two come early, across the wrap. -/
theorem shuffled_noneDropped :
    NoneDropped (rxHistory none ([65535, 65538, 65537, 65536].map seqOf)).1
      ∧ deliveredSoFar (rxHistory none ([65535, 65538, 65537, 65536].map seqOf)).1
          = [65535#16, 0#16, 1#16, 2#16] := by
  obtain ⟨_, hall, hle⟩ :=
    rxHistory_noneDropped_iff none 65535 [65538, 65537, 65536] (by decide +kernel)
  have hnone := hle (by decide +kernel)
  exact ⟨hnone, (hall hnone).trans (by decide +kernel)⟩

end Relinow
