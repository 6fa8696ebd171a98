import Relinow.Lib.InOrder
import Relinow.Lib.Runs
import Mathlib.Data.Finset.Image
import Mathlib.Data.Int.Interval
import Mathlib.Tactic.Push
import Mathlib.Tactic.Ring

/-!
# The in-order queue, seen without wrapping

Two results about `InOrder`. The answer of a queue is determined by the arrival,
and a queue over one space of numbers behaves as a queue over another does, when
the numbers near the awaited one are told apart and compared as they are there.
So a queue over numbers that wrap around behaves as one over the integers.

Over the integers a queue is a set: what was taken in. The number awaited is the
first one missing from the set, and what is held back are the numbers beyond.
-/

namespace InOrder

open Runs

variable {ι κ : Type} [DecidableEq ι] [DecidableEq κ] {S : Space ι} {T : Space κ} {cap : Nat}

/-! ## The answer is determined -/

theorem Drain.unique {e e₁ e₂ : ι} {H H₁ H₂ : Finset ι} {ds₁ ds₂ : List ι}
    (h₁ : Drain S e H ds₁ e₁ H₁) (h₂ : Drain S e H ds₂ e₂ H₂) :
    ds₁ = ds₂ ∧ e₁ = e₂ ∧ H₁ = H₂ := by
  induction h₁ generalizing ds₂ with
  | stop hnot =>
      cases h₂ with
      | stop _ => exact ⟨rfl, rfl, rfl⟩
      | take hin _ => exact absurd hin hnot
  | take hin _ ih =>
      cases h₂ with
      | stop hnot => exact absurd hin hnot
      | take _ h₂ =>
          obtain ⟨rfl, rfl, rfl⟩ := ih h₂
          exact ⟨rfl, rfl, rfl⟩

/-- **One arrival, one answer.** -/
theorem Receive.unique {Q Q₁ Q₂ : Queue ι} {q : ι} {v₁ v₂ : Verdict} {ds₁ ds₂ : List ι}
    (h₁ : Receive S cap Q q v₁ ds₁ Q₁) (h₂ : Receive S cap Q q v₂ ds₂ Q₂) :
    v₁ = v₂ ∧ ds₁ = ds₂ ∧ Q₁ = Q₂ := by
  cases h₁ with
  | adopt =>
      cases h₂
      exact ⟨rfl, rfl, rfl⟩
  | deliver hdr =>
      cases h₂ with
      | deliver hdr' =>
          obtain ⟨rfl, rfl, rfl⟩ := hdr.unique hdr'
          exact ⟨rfl, rfl, rfl⟩
      | hold hn _ => exact absurd hn (by simp [S.newer_irrefl])
      | refuse hn _ _ => exact absurd hn (by simp [S.newer_irrefl])
      | stale hne _ => exact absurd rfl hne
  | hold hn hroom =>
      cases h₂ with
      | deliver _ => exact absurd hn (by simp [S.newer_irrefl])
      | hold _ _ => exact ⟨rfl, rfl, rfl⟩
      | refuse _ hnot hfull => exact absurd hroom (by simp [hnot, hfull])
      | stale _ hold => exact absurd (hn.symm.trans hold) (by decide)
  | refuse hn hnot hfull =>
      cases h₂ with
      | deliver _ => exact absurd hn (by simp [S.newer_irrefl])
      | hold _ hroom => exact absurd hroom (by simp [hnot, hfull])
      | refuse _ _ _ => exact ⟨rfl, rfl, rfl⟩
      | stale _ hold => exact absurd (hn.symm.trans hold) (by decide)
  | stale hne hold =>
      cases h₂ with
      | deliver _ => exact absurd rfl hne
      | hold hn _ => exact absurd (hn.symm.trans hold) (by decide)
      | refuse hn _ _ => exact absurd (hn.symm.trans hold) (by decide)
      | stale _ _ => exact ⟨rfl, rfl, rfl⟩

/-! ## Numbers written in another space -/

/-- How the numbers of `S` are written as numbers of `T`: near the awaited number, no two are
written alike and they compare as they did. -/
structure Coding (S : Space ι) (T : Space κ) where
  code : ι → κ
  near : ι → ι → Prop
  near_self : ∀ e, near e e
  near_succ : ∀ {q e}, near q e → S.newer q e = true → near q (S.succ e)
  succ : ∀ e, code (S.succ e) = T.succ (code e)
  newer : ∀ {q e}, near q e → T.newer (code q) (code e) = S.newer q e
  inj : ∀ {q q' e}, near q e → near q' e → code q = code q' → q = q'

section Coding

variable (C : Coding S T)

/-- The queue, with its numbers written in the other space. -/
def Coding.queue (Q : Queue ι) : Queue κ := ⟨Q.next.map C.code, Q.held.image C.code⟩

/-- What is held lies ahead of what is awaited, and near it. -/
structure Coding.Near (Q : Queue ι) : Prop where
  held : ∀ e, Q.next = some e → ∀ x ∈ Q.held, C.near x e ∧ S.newer x e = true
  closed : Q.next = none → Q.held = ∅

variable {C}

omit [DecidableEq ι] in
theorem Coding.mem_image {e q : ι} {H : Finset ι} (hH : ∀ x ∈ H, C.near x e) (hq : C.near q e) :
    C.code q ∈ H.image C.code ↔ q ∈ H := by
  rw [Finset.mem_image]
  constructor
  · rintro ⟨x, hx, heq⟩
    exact C.inj (hH x hx) hq heq ▸ hx
  · exact fun hq => ⟨q, hq, rfl⟩

theorem Coding.image_erase {e : ι} {H : Finset ι} (hH : ∀ x ∈ H, C.near x e) :
    (H.erase e).image C.code = (H.image C.code).erase (C.code e) := by
  ext y
  rw [Finset.mem_erase, Finset.mem_image, Finset.mem_image]
  constructor
  · rintro ⟨x, hx, rfl⟩
    obtain ⟨hne, hx⟩ := Finset.mem_erase.mp hx
    exact ⟨fun heq => hne (C.inj (hH x hx) (C.near_self e) heq), x, hx, rfl⟩
  · rintro ⟨hne, x, hx, rfl⟩
    exact ⟨x, Finset.mem_erase.mpr ⟨fun heq => hne (by rw [heq]), hx⟩, rfl⟩

omit [DecidableEq ι] in
theorem Coding.card_image {e : ι} {H : Finset ι} (hH : ∀ x ∈ H, C.near x e) :
    (H.image C.code).card = H.card :=
  Finset.card_image_of_injOn fun _ hx _ hy heq => C.inj (hH _ hx) (hH _ hy) heq

omit [DecidableEq κ] in
/-- What lies ahead of a number is near the next one too, and is that one or lies ahead of it. -/
theorem Coding.advance {e x : ι} (hnear : C.near x e) (hnew : S.newer x e = true) :
    C.near x (S.succ e) ∧ (x = S.succ e ∨ S.newer x (S.succ e) = true) := by
  refine ⟨C.near_succ hnear hnew, ?_⟩
  by_cases hx : x = S.succ e
  · exact Or.inl hx
  · exact Or.inr (S.newer_succ hnew hx)

theorem Drain.code {e e' : ι} {H H' : Finset ι} {ds : List ι} (h : Drain S e H ds e' H') :
    (∀ x ∈ H, C.near x e ∧ (x = e ∨ S.newer x e = true)) →
      Drain T (C.code e) (H.image C.code) (ds.map C.code) (C.code e') (H'.image C.code)
        ∧ ∀ x ∈ H', C.near x e' ∧ S.newer x e' = true := by
  induction h with
  | @stop e H hnot =>
      intro hH
      refine ⟨Drain.stop ?_, fun x hx => ⟨(hH x hx).1, ?_⟩⟩
      · rwa [Coding.mem_image (fun x hx => (hH x hx).1) (C.near_self e)]
      · exact (hH x hx).2.resolve_left fun heq => hnot (heq ▸ hx)
  | @take e e' H H' ds hin hdr ih =>
      intro hH
      obtain ⟨hdrain, hleft⟩ := ih fun x hx => by
        obtain ⟨hne, hx⟩ := Finset.mem_erase.mp hx
        exact Coding.advance (hH x hx).1 ((hH x hx).2.resolve_left hne)
      rw [Coding.image_erase fun x hx => (hH x hx).1, C.succ] at hdrain
      exact ⟨Drain.take (Finset.mem_image_of_mem _ hin) hdrain, hleft⟩

/-- **A queue answers in one space as it does in the other**, if the arrival is near the number
awaited. -/
theorem Receive.code {Q Q' : Queue ι} {q : ι} {v : Verdict} {ds : List ι}
    (h : Receive S cap Q q v ds Q') (hQ : C.Near Q)
    (hq : ∀ e, Q.next = some e → C.near q e) :
    Receive T cap (C.queue Q) (C.code q) v (ds.map C.code) (C.queue Q') ∧ C.Near Q' := by
  cases h with
  | @adopt q H =>
      obtain rfl : H = ∅ := hQ.closed rfl
      refine ⟨?_, fun e he x hx => absurd hx (Finset.notMem_empty x), fun hn => absurd hn (by simp)⟩
      have hadopt : Receive T cap ⟨none, ∅⟩ (C.code q) .delivered [C.code q]
          ⟨some (T.succ (C.code q)), ∅⟩ := Receive.adopt
      rwa [← C.succ] at hadopt
  | @deliver e e' H H' ds hdr =>
      have hH := hQ.held q rfl
      obtain ⟨hdrain, hleft⟩ := hdr.code (C := C) fun x hx => Coding.advance (hH x hx).1 (hH x hx).2
      rw [C.succ] at hdrain
      refine ⟨Receive.deliver hdrain, fun e he x hx => ?_, fun hn => absurd hn (by simp)⟩
      obtain rfl := Option.some.inj he
      exact hleft x hx
  | @hold e q H hn hroom =>
      have hH := hQ.held e rfl
      have hnear := hq e rfl
      refine ⟨?_, fun e' he x hx => ?_, fun hn => absurd hn (by simp)⟩
      · have himage : (insert q H).image C.code = insert (C.code q) (H.image C.code) :=
          Finset.image_insert _ _ _
        unfold Coding.queue
        dsimp only
        rw [himage]
        refine Receive.hold ((C.newer hnear).trans hn) ?_
        rwa [Coding.mem_image (fun x hx => (hH x hx).1) hnear,
          Coding.card_image fun x hx => (hH x hx).1]
      · obtain rfl := Option.some.inj he
        rcases Finset.mem_insert.mp hx with rfl | hx
        · exact ⟨hnear, hn⟩
        · exact hH x hx
  | @refuse e q H hn hnot hfull =>
      have hH := hQ.held e rfl
      have hnear := hq e rfl
      refine ⟨Receive.refuse ((C.newer hnear).trans hn) ?_ ?_, hQ⟩
      · rwa [Coding.mem_image (fun x hx => (hH x hx).1) hnear]
      · rwa [Coding.card_image fun x hx => (hH x hx).1]
  | @stale e q H hne hold =>
      have hnear := hq e rfl
      refine ⟨Receive.stale (fun heq => hne (C.inj hnear (C.near_self e) heq)) ?_, hQ⟩
      exact (C.newer hnear).trans hold

end Coding

/-! ## The first number missing -/

/-- The first number from `e` on that is not in the set, looking at most `k` numbers ahead. -/
def firstMissing (s : Finset Int) : Nat → Int → Int
  | 0, e => e
  | k + 1, e => if e ∈ s then firstMissing s k (e + 1) else e

theorem firstMissing_spec (s : Finset Int) : ∀ (k : Nat) (e : Int),
    e ≤ firstMissing s k e ∧ (∀ i, e ≤ i → i < firstMissing s k e → i ∈ s)
      ∧ (firstMissing s k e ∉ s ∨ firstMissing s k e = e + k) := by
  intro k
  induction k with
  | zero =>
      exact fun e => ⟨le_refl e, fun i h1 h2 => absurd h2 (not_lt.mpr h1),
        Or.inr (by simp [firstMissing])⟩
  | succ k ih =>
      intro e
      rw [firstMissing]
      split
      · rename_i hin
        obtain ⟨hle, hall, hstop⟩ := ih (e + 1)
        refine ⟨by omega, fun i h1 h2 => ?_, hstop.imp_right fun heq => by omega⟩
        by_cases hie : i = e
        · exact hie ▸ hin
        · exact hall i (by omega) h2
      · rename_i hout
        exact ⟨le_refl e, fun i h1 h2 => absurd h2 (not_lt.mpr h1), Or.inl hout⟩

/-- **As many steps as the set has members lead out of it.** -/
theorem firstMissing_notMem (s : Finset Int) (e : Int) : firstMissing s s.card e ∉ s := by
  obtain ⟨hle, hall, hstop⟩ := firstMissing_spec s s.card e
  rcases hstop with hstop | heq
  · exact hstop
  · -- the numbers passed are all the members there are
    have hsub : Finset.Ico e (e + s.card) ⊆ s := fun i hi => by
      obtain ⟨h1, h2⟩ := Finset.mem_Ico.mp hi
      exact hall i h1 (by omega)
    have hcard : (Finset.Ico e (e + s.card)).card = s.card := by
      rw [Int.card_Ico, add_sub_cancel_left, Int.toNat_natCast]
    have hfull := Finset.eq_of_subset_of_card_le hsub hcard.ge
    rw [heq]
    intro hin
    rw [← hfull, Finset.mem_Ico] at hin
    omega

/-- It is the only number missing below which nothing is. -/
theorem eq_firstMissing {s : Finset Int} {e m : Int} (hle : e ≤ m)
    (hall : ∀ i, e ≤ i → i < m → i ∈ s) (hm : m ∉ s) : firstMissing s s.card e = m := by
  obtain ⟨hle', hall', -⟩ := firstMissing_spec s s.card e
  have hout := firstMissing_notMem s e
  rcases lt_trichotomy (firstMissing s s.card e) m with hlt | heq | hgt
  · exact absurd (hall _ hle' hlt) hout
  · exact heq
  · exact absurd (hall' m hle hgt) hm

/-! ## The queue over the integers -/

/-- The integers as sequence numbers. -/
def intSpace : Space Int where
  succ := fun n => n + 1
  newer := fun a b => decide (b < a)
  newer_irrefl := fun a => decide_eq_false (lt_irrefl a)
  newer_succ := by
    intro a b hab hne
    have := of_decide_eq_true hab
    exact decide_eq_true (by omega)

theorem intSpace_newer {a b : Int} : intSpace.newer a b = true ↔ b < a := decide_eq_true_iff

/-- `n` integers in a row. -/
def ints (e : Int) : Nat → List Int
  | 0 => []
  | n + 1 => e :: ints (e + 1) n

theorem ints_add (n : Nat) :
    ∀ (m : Nat) (e : Int), ints e (m + n) = ints e m ++ ints (e + m) n := by
  intro m
  induction m with
  | zero => exact fun e => by simp [ints]
  | succ m ih =>
      intro e
      rw [Nat.add_right_comm, ints, ints, ih, List.cons_append]
      congr 3
      push_cast
      ring

/-- A drain takes what is held in a row, up to the first number missing. -/
theorem drain_ints : ∀ (n : Nat) (e : Int) (H : Finset Int),
    (∀ i, e ≤ i → i < e + n → i ∈ H) → e + n ∉ H →
      Drain intSpace e H (ints e n) (e + n) (H.filter fun x => x < e ∨ e + n ≤ x) := by
  intro n
  induction n with
  | zero =>
      intro e H _ hout
      have hstop := Drain.stop (S := intSpace) (e := e) (H := H) (by simpa using hout)
      simpa [ints, lt_or_ge] using hstop
  | succ n ih =>
      intro e H hin hout
      have hrest := ih (e + 1) (H.erase e) (fun i h1 h2 => by
        exact Finset.mem_erase.mpr ⟨by omega, hin i (by omega) (by omega)⟩) (fun hm => by
        refine hout ?_
        have := Finset.mem_of_mem_erase hm
        rwa [show e + 1 + (n : Int) = e + (n + 1 : Nat) by omega] at this)
      have htake := Drain.take (hin e (le_refl e) (by omega)) hrest
      have hleft : (H.erase e).filter (fun x => x < e + 1 ∨ e + 1 + n ≤ x)
          = H.filter fun x => x < e ∨ e + (n + 1 : Nat) ≤ x := by
        ext x
        rw [Finset.mem_filter, Finset.mem_erase, Finset.mem_filter]
        constructor
        · rintro ⟨⟨hne, hx⟩, hr⟩
          exact ⟨hx, by omega⟩
        · rintro ⟨hx, hr⟩
          exact ⟨⟨by omega, hx⟩, by omega⟩
      rwa [hleft, show e + 1 + (n : Int) = e + (n + 1 : Nat) by omega] at htake

/-- What has arrived: the number counting starts at, and the numbers taken in. -/
structure Window where
  first : Int
  taken : Finset Int
  deriving DecidableEq

namespace Window

/-- The number awaited. -/
def next (w : Window) : Int := firstMissing w.taken w.taken.card w.first

/-- The numbers taken in that lie beyond a gap. -/
def early (w : Window) : Finset Int := w.taken.filter fun n => w.next < n

/-- There is room for the number, or it needs none. -/
def Fits (cap : Nat) (w : Window) (n : Int) : Prop :=
  n ≤ w.next ∨ n ∈ w.taken ∨ w.early.card < cap

instance (cap : Nat) (w : Window) (n : Int) : Decidable (w.Fits cap n) := by
  unfold Fits
  exact inferInstance

/-- The window after one more number. -/
def take (cap : Nat) (w : Window) (n : Int) : Window :=
  if w.Fits cap n then { w with taken := insert n w.taken } else w

/-- What is to be said about it. -/
def verdict (cap : Nat) (w : Window) (n : Int) : Verdict :=
  if n = w.next then .delivered
  else if n < w.next then .stale
  else if w.Fits cap n then .early
  else .refused

/-- What goes when the window moves. -/
def released (cap : Nat) (w : Window) (n : Int) : List Int :=
  ints w.next ((w.take cap n).next - w.next).toNat

/-- The queue a window stands for. -/
def queue (w : Window) : Queue Int := ⟨some w.next, w.early⟩

theorem next_notMem (w : Window) : w.next ∉ w.taken := firstMissing_notMem w.taken w.first

theorem first_le_next (w : Window) : w.first ≤ w.next :=
  (firstMissing_spec w.taken w.taken.card w.first).1

theorem mem_of_lt_next (w : Window) {i : Int} (h1 : w.first ≤ i) (h2 : i < w.next) :
    i ∈ w.taken :=
  (firstMissing_spec w.taken w.taken.card w.first).2.1 i h1 h2

theorem next_eq {w : Window} {m : Int} (hle : w.first ≤ m)
    (hall : ∀ i, w.first ≤ i → i < m → i ∈ w.taken) (hm : m ∉ w.taken) : w.next = m :=
  eq_firstMissing hle hall hm

theorem mem_early {w : Window} {n : Int} : n ∈ w.early ↔ n ∈ w.taken ∧ w.next < n :=
  Finset.mem_filter

/-- The window with one more number in it awaits the same number, or one beyond that number. -/
theorem next_insert (w : Window) (n : Int) :
    (n ≠ w.next ∧ ({ w with taken := insert n w.taken } : Window).next = w.next)
      ∨ (n = w.next ∧ w.next < ({ w with taken := insert n w.taken } : Window).next) := by
  by_cases hn : n = w.next
  · right
    refine ⟨hn, ?_⟩
    by_contra hge
    -- what the window awaits afterwards is still missing before
    have hout := ({ w with taken := insert n w.taken } : Window).next_notMem
    have hle := ({ w with taken := insert n w.taken } : Window).first_le_next
    rw [Finset.mem_insert, not_or] at hout
    rcases lt_or_eq_of_le (not_lt.mp hge) with hlt | heq
    · exact hout.2 (w.mem_of_lt_next hle hlt)
    · exact hout.1 (heq.trans hn.symm)
  · left
    refine ⟨hn, next_eq w.first_le_next (fun i h1 h2 => ?_) ?_⟩
    · exact Finset.mem_insert_of_mem (w.mem_of_lt_next h1 h2)
    · rw [Finset.mem_insert, not_or]
      exact ⟨Ne.symm hn, w.next_notMem⟩

theorem take_of_fits {cap : Nat} {w : Window} {n : Int} (h : w.Fits cap n) :
    w.take cap n = { w with taken := insert n w.taken } := if_pos h

theorem take_of_not_fits {cap : Nat} {w : Window} {n : Int} (h : ¬ w.Fits cap n) :
    w.take cap n = w := if_neg h

theorem fits_next (cap : Nat) (w : Window) : w.Fits cap w.next := Or.inl (le_refl _)

/-- Only the number awaited moves the window. -/
theorem next_take_of_ne {cap : Nat} {w : Window} {n : Int} (hn : n ≠ w.next) :
    (w.take cap n).next = w.next := by
  unfold take
  split
  · rcases w.next_insert n with ⟨_, heq⟩ | ⟨heq, _⟩
    · exact heq
    · exact absurd heq hn
  · rfl

theorem next_lt_take (cap : Nat) (w : Window) : w.next < (w.take cap w.next).next := by
  rw [take_of_fits (w.fits_next cap)]
  rcases w.next_insert w.next with ⟨hne, _⟩ | ⟨_, hlt⟩
  · exact absurd rfl hne
  · exact hlt

theorem next_le_take (cap : Nat) (w : Window) (n : Int) : w.next ≤ (w.take cap n).next := by
  by_cases hn : n = w.next
  · exact hn ▸ (next_lt_take cap w).le
  · exact (next_take_of_ne hn).ge

theorem next_le_run (cap : Nat) (w : Window) (ns : List Int) :
    w.next ≤ (run (take cap) w ns).next := by
  induction ns generalizing w with
  | nil => exact le_refl _
  | cons n ns ih => exact (w.next_le_take cap n).trans (ih (w.take cap n))

theorem released_of_ne {cap : Nat} {w : Window} {n : Int} (hn : n ≠ w.next) :
    w.released cap n = [] := by
  unfold released
  rw [next_take_of_ne hn, sub_self]
  rfl

/-- When the number awaited arrives, it goes and the early ones after it up to the next gap. -/
theorem drain_next (cap : Nat) (w : Window) : ∃ ds, w.released cap w.next = w.next :: ds
    ∧ Drain intSpace (w.next + 1) w.early ds (w.take cap w.next).next
        (w.take cap w.next).early := by
  have hlt := next_lt_take cap w
  obtain ⟨k, hk⟩ : ∃ k : Nat, (w.take cap w.next).next = w.next + 1 + k :=
    ⟨((w.take cap w.next).next - (w.next + 1)).toNat, by omega⟩
  have hlen : ((w.take cap w.next).next - w.next).toNat = k + 1 := by omega
  have hin : ∀ i, w.next + 1 ≤ i → i < w.next + 1 + k → i ∈ w.early := by
    intro i h1 h2
    have hfirst := w.first_le_next
    have hm := (w.take cap w.next).mem_of_lt_next (i := i)
    rw [hk, take_of_fits (w.fits_next cap)] at hm
    exact mem_early.mpr ⟨Finset.mem_of_mem_insert_of_ne (hm (by dsimp only; omega) h2) (by omega),
      by omega⟩
  have hout : w.next + 1 + k ∉ w.early := by
    have hm := (w.take cap w.next).next_notMem
    rw [hk, take_of_fits (w.fits_next cap), Finset.mem_insert, not_or] at hm
    exact fun he => hm.2 (mem_early.mp he).1
  have hleft : w.early.filter (fun x => x < w.next + 1 ∨ w.next + 1 + k ≤ x)
      = (w.take cap w.next).early := by
    ext x
    rw [Finset.mem_filter, mem_early, mem_early, hk, take_of_fits (w.fits_next cap),
      Finset.mem_insert]
    constructor
    · rintro ⟨⟨hx, hgt⟩, hr⟩
      refine ⟨Or.inr hx, ?_⟩
      -- the number now awaited was not taken in
      have hne : x ≠ w.next + 1 + k := fun heq => hout (heq ▸ mem_early.mpr ⟨hx, hgt⟩)
      omega
    · rintro ⟨rfl | hx, hgt⟩
      · omega
      · exact ⟨⟨hx, by omega⟩, by omega⟩
  have hdrain := drain_ints k (w.next + 1) w.early hin hout
  refine ⟨ints (w.next + 1) k, ?_, ?_⟩
  · unfold released
    rw [hlen]
    rfl
  · rwa [hleft, ← hk] at hdrain

/-- **A window is a queue over the integers.** -/
theorem receive (cap : Nat) (w : Window) (n : Int) :
    Receive intSpace cap w.queue n (w.verdict cap n) (w.released cap n) (w.take cap n).queue := by
  unfold verdict
  by_cases hn : n = w.next
  · subst hn
    obtain ⟨ds, hds, hdrain⟩ := w.drain_next cap
    rw [if_pos rfl, hds]
    exact Receive.deliver hdrain
  · rw [if_neg hn, released_of_ne hn]
    unfold queue
    rw [next_take_of_ne hn]
    by_cases hlt : n < w.next
    · rw [if_pos hlt]
      have hsame : (w.take cap n).early = w.early := by
        ext x
        rw [mem_early, mem_early, next_take_of_ne hn, take_of_fits (Or.inl hlt.le),
          Finset.mem_insert]
        exact ⟨fun ⟨h1, h2⟩ => ⟨h1.resolve_left (by omega), h2⟩, fun ⟨h1, h2⟩ => ⟨Or.inr h1, h2⟩⟩
      rw [hsame]
      exact Receive.stale hn (decide_eq_false (by omega))
    · rw [if_neg hlt]
      have hgt : w.next < n := by omega
      by_cases hfits : w.Fits cap n
      · rw [if_pos hfits]
        have hmore : (w.take cap n).early = insert n w.early := by
          ext x
          rw [mem_early, next_take_of_ne hn, take_of_fits hfits, Finset.mem_insert,
            Finset.mem_insert, mem_early]
          constructor
          · rintro ⟨h1, h2⟩
            exact h1.imp_right fun hx => ⟨hx, h2⟩
          · rintro (rfl | ⟨h1, h2⟩)
            · exact ⟨Or.inl rfl, hgt⟩
            · exact ⟨Or.inr h1, h2⟩
        rw [hmore]
        refine Receive.hold (intSpace_newer.mpr hgt) ?_
        rcases hfits with hle | hin | hroom
        · omega
        · exact Or.inl (mem_early.mpr ⟨hin, hgt⟩)
        · exact Or.inr hroom
      · rw [if_neg hfits, take_of_not_fits hfits]
        unfold Fits at hfits
        push Not at hfits
        exact Receive.refuse (intSpace_newer.mpr hgt) (fun he => hfits.2.1 (mem_early.mp he).1)
          hfits.2.2

/-- Exactly what does not fit is refused. -/
theorem verdict_refused {cap : Nat} {w : Window} {n : Int} :
    w.verdict cap n = .refused ↔ ¬ w.Fits cap n := by
  unfold verdict
  by_cases hle : n ≤ w.next
  · have hfits : w.Fits cap n := Or.inl hle
    by_cases hn : n = w.next
    · simp [hn, w.fits_next cap]
    · simp [hn, hfits, show n < w.next by omega]
  · rw [if_neg (by omega), if_neg (by omega)]
    by_cases hfits : w.Fits cap n <;> simp [hfits]

/-! ### When nothing is refused -/

/-- The window after one more number, with all the room there is. -/
def add (w : Window) (n : Int) : Window := { w with taken := insert n w.taken }

theorem next_le_add (w : Window) (n : Int) : w.next ≤ (w.add n).next := by
  rcases w.next_insert n with ⟨_, heq⟩ | ⟨_, hlt⟩
  · exact heq.ge
  · exact hlt.le

/-- What is so of a run in which everything is taken in, is so if everything fits. -/
theorem along_take_of_fits {cap : Nat} {P : Window → Int → Prop} {ns : List Int} :
    ∀ {w : Window}, Along add (Fits cap) w ns → Along add P w ns → Along (take cap) P w ns := by
  induction ns with
  | nil => exact fun _ _ => trivial
  | cons n ns ih =>
      intro w hfits h
      refine ⟨h.1, ?_⟩
      rw [take_of_fits hfits.1]
      exact ih hfits.2 h.2

/-- Then the window holds all that arrived. -/
theorem run_take_of_fits {cap : Nat} {ns : List Int} : ∀ {w : Window},
    Along add (Fits cap) w ns → run (take cap) w ns = run add w ns := by
  induction ns with
  | nil => exact fun _ => rfl
  | cons n ns ih =>
      intro w h
      rw [run_cons, run_cons, take_of_fits h.1]
      exact ih h.2

/-- No number held back is further ahead than the queue is long. -/
def Ahead (cap : Nat) (w : Window) : Prop := ∀ x ∈ w.early, x ≤ w.next + cap

theorem Ahead.fits {cap : Nat} {w : Window} (h : w.Ahead cap) {n : Int}
    (hn : n ≤ w.next + cap) : w.Fits cap n := by
  by_cases hle : n ≤ w.next
  · exact Or.inl hle
  · by_cases hin : n ∈ w.taken
    · exact Or.inr (Or.inl hin)
    · -- the number itself is one of those that may be held back
      refine Or.inr (Or.inr ?_)
      have hsub : w.early ⊆ (Finset.Ioc w.next (w.next + cap)).erase n := fun x hx => by
        have hmem := mem_early.mp hx
        refine Finset.mem_erase.mpr ⟨?_, Finset.mem_Ioc.mpr ⟨hmem.2, h x hx⟩⟩
        rintro rfl
        exact hin hmem.1
      have hcard := Finset.card_le_card hsub
      rw [Finset.card_erase_of_mem (Finset.mem_Ioc.mpr ⟨by omega, hn⟩), Int.card_Ioc] at hcard
      omega

theorem Ahead.add {cap : Nat} {w : Window} (h : w.Ahead cap) {n : Int}
    (hn : n ≤ w.next + cap) : (w.add n).Ahead cap := by
  intro x hx
  have hle := w.next_le_add n
  obtain ⟨hx, hgt⟩ := mem_early.mp hx
  rcases Finset.mem_insert.mp hx with rfl | hx
  · omega
  · have := h x (mem_early.mpr ⟨hx, by omega⟩)
    omega

/-- **A queue as long as the numbers run ahead refuses nothing.** -/
theorem along_fits_of_le {cap : Nat} {w : Window} (hw : w.Ahead cap) {ns : List Int}
    (h : Along Window.add (fun w n => n ≤ w.next + cap) w ns) :
    Along Window.add (Fits cap) w ns :=
  along_of_invariant (fun _ _ hs hn => hs.add hn) (fun _ _ hs hn => hs.fits hn) hw h

/-- What goes along a run is one run of integers, from the number awaited before it to the number
awaited after it. -/
theorem ints_step (cap : Nat) (w : Window) (n m : Int) (hm : (w.take cap n).next ≤ m) :
    w.released cap n ++ ints (w.take cap n).next (m - (w.take cap n).next).toNat
      = ints w.next (m - w.next).toNat := by
  have hle := next_le_take cap w n
  obtain ⟨k, hk⟩ : ∃ k : Nat, (w.take cap n).next = w.next + k :=
    ⟨((w.take cap n).next - w.next).toNat, by omega⟩
  have hlen : ((w.take cap n).next - w.next).toNat = k := by omega
  have hsum : (m - w.next).toNat = k + (m - (w.take cap n).next).toNat := by omega
  unfold released
  rw [hlen, hsum, ints_add, hk]

end Window

end InOrder
