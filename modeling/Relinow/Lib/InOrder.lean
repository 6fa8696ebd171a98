import Mathlib.Data.Finset.Basic
import Mathlib.Data.Finset.Card
import Mathlib.Logic.Function.Iterate

/-!
# The in-order queue

What a receiver of numbered items is for, with everything about buffers, slots
and loops left out. Items arrive in any order, early, late or twice; the queue
awaits one number at a time, holds a bounded set of early ones, and lets go of
items only in the order of their numbers. The first arrival decides where the
numbering starts.

The sequence space is arbitrary: a successor, and a test saying which numbers
count as lying ahead of which. On a finite space that wraps around the test
cannot be an order; two laws about it suffice.
-/

namespace InOrder

/-- A space of sequence numbers. -/
structure Space (ι : Type) where
  /-- The number after this one. -/
  succ : ι → ι
  /-- Does the first lie ahead of the second? -/
  newer : ι → ι → Bool
  /-- Nothing lies ahead of itself. -/
  newer_irrefl : ∀ a, newer a a = false
  /-- What lies ahead stays ahead until it is the next one. -/
  newer_succ : ∀ {a b}, newer a b = true → a ≠ succ b → newer a (succ b) = true

/-- The queue: the number awaited, if any arrived yet, and the early ones held back. -/
@[ext] structure Queue (ι : Type) where
  next : Option ι
  held : Finset ι

/-- What the queue says about one arrival. -/
inductive Verdict where
  | delivered
  | early
  | stale
  | refused
  deriving DecidableEq, Repr

variable {ι : Type} [DecidableEq ι] (S : Space ι)

/--
`Drain S e H ds e' H'`: with `e` awaited and `H` held, exactly `ds` can go, and
then `e'` is awaited and `H'` still held. There is no bound on the length of `ds`.
-/
inductive Drain : ι → Finset ι → List ι → ι → Finset ι → Prop where
  | stop {e : ι} {H : Finset ι} : e ∉ H → Drain e H [] e H
  | take {e e' : ι} {H H' : Finset ι} {ds : List ι} :
      e ∈ H → Drain (S.succ e) (H.erase e) ds e' H' → Drain e H (e :: ds) e' H'

/-- One arrival at a queue that can hold `cap` early items. -/
inductive Receive (cap : Nat) : Queue ι → ι → Verdict → List ι → Queue ι → Prop where
  | adopt {q : ι} {H : Finset ι} :
      Receive cap ⟨none, H⟩ q .delivered [q] ⟨some (S.succ q), H⟩
  | deliver {e e' : ι} {H H' : Finset ι} {ds : List ι} :
      Drain S (S.succ e) H ds e' H' →
      Receive cap ⟨some e, H⟩ e .delivered (e :: ds) ⟨some e', H'⟩
  | hold {e q : ι} {H : Finset ι} :
      S.newer q e = true → q ∈ H ∨ H.card < cap →
      Receive cap ⟨some e, H⟩ q .early [] ⟨some e, insert q H⟩
  | refuse {e q : ι} {H : Finset ι} :
      S.newer q e = true → q ∉ H → cap ≤ H.card →
      Receive cap ⟨some e, H⟩ q .refused [] ⟨some e, H⟩
  | stale {e q : ι} {H : Finset ι} :
      q ≠ e → S.newer q e = false → Receive cap ⟨some e, H⟩ q .stale [] ⟨some e, H⟩

/-- The record of one arrival. -/
structure Arrival (ι : Type) where
  id : ι
  verdict : Verdict
  released : List ι

/-- The histories of a queue, from empty. -/
inductive Run (cap : Nat) : List (Arrival ι) → Queue ι → Prop where
  | nil : Run cap [] ⟨none, ∅⟩
  | snoc {h : List (Arrival ι)} {Q Q' : Queue ι} {a : Arrival ι} :
      Run cap h Q → Receive S cap Q a.id a.verdict a.released Q' → Run cap (h ++ [a]) Q'

/-- `d` was reported early at some point of the history, and has not gone since. -/
def Outstanding (h : List (Arrival ι)) (d : ι) : Prop :=
  ∃ pre a post, h = pre ++ a :: post ∧ a.id = d ∧ a.verdict = .early
    ∧ ∀ b ∈ post, d ∉ b.released

omit [DecidableEq ι] in
theorem outstanding_snoc {h : List (Arrival ι)} {a : Arrival ι} {d : ι} :
    Outstanding (h ++ [a]) d ↔
      (a.id = d ∧ a.verdict = .early) ∨ (Outstanding h d ∧ d ∉ a.released) := by
  constructor
  · rintro ⟨pre, b, post, heq, hid, hv, hpost⟩
    rcases List.eq_nil_or_concat post with rfl | ⟨post', c, rfl⟩
    · obtain ⟨_, h2⟩ := List.append_inj' heq rfl
      obtain rfl : a = b := by simpa using h2
      exact Or.inl ⟨hid, hv⟩
    · rw [List.concat_eq_append] at heq hpost
      rw [← List.cons_append, ← List.append_assoc] at heq
      obtain ⟨h1, h2⟩ := List.append_inj' heq rfl
      obtain rfl : a = c := by simpa using h2
      refine Or.inr ⟨⟨pre, b, post', h1, hid, hv, fun x hx => hpost x ?_⟩, hpost a ?_⟩
      · exact List.mem_append_left _ hx
      · exact List.mem_append_right _ (List.mem_singleton_self a)
  · rintro (⟨hid, hv⟩ | ⟨⟨pre, b, post, rfl, hid, hv, hpost⟩, hd⟩)
    · exact ⟨h, a, [], rfl, hid, hv, by simp⟩
    · refine ⟨pre, b, post ++ [a], by simp, hid, hv, ?_⟩
      intro x hx
      rcases List.mem_append.mp hx with hx | hx
      · exact hpost x hx
      · rw [List.mem_singleton.mp hx]; exact hd

/-! ## Draining -/

variable {S}

theorem Drain.held_eq {e e' : ι} {H H' : Finset ι} {ds : List ι} (h : Drain S e H ds e' H') :
    ∀ d, d ∈ H' ↔ d ∈ H ∧ d ∉ ds := by
  induction h with
  | stop _ => intro d; simp
  | take he _ ih =>
      intro d
      rw [ih d, Finset.mem_erase, List.mem_cons, not_or]
      tauto

theorem Drain.released_mem {e e' : ι} {H H' : Finset ι} {ds : List ι}
    (h : Drain S e H ds e' H') : ∀ d ∈ ds, d ∈ H := by
  induction h with
  | stop _ => intro d hd; exact absurd hd (List.not_mem_nil)
  | take he _ ih =>
      intro d hd
      rcases List.mem_cons.mp hd with rfl | hd
      · exact he
      · exact Finset.mem_of_mem_erase (ih d hd)

/-- **A drain runs through consecutive numbers and stops at the first one missing.** -/
theorem Drain.consecutive {e e' : ι} {H H' : Finset ι} {ds : List ι}
    (h : Drain S e H ds e' H') :
    ds = (List.range ds.length).map (fun k => S.succ^[k] e)
      ∧ e' = S.succ^[ds.length] e ∧ e' ∉ H' := by
  induction h with
  | stop he => exact ⟨rfl, rfl, he⟩
  | take he _ ih =>
      obtain ⟨h1, h2, h3⟩ := ih
      refine ⟨?_, by rw [h2]; rfl, h3⟩
      rw [List.length_cons, List.range_succ_eq_map, List.map_cons, List.map_map]
      refine congrArg₂ List.cons rfl ?_
      exact h1

/-- Everything left behind lies ahead of the number now awaited. -/
theorem Drain.ahead {e e' : ι} {H H' : Finset ι} {ds : List ι} (h : Drain S e H ds e' H')
    (hH : ∀ q ∈ H, q = e ∨ S.newer q e = true) : ∀ q ∈ H', S.newer q e' = true := by
  induction h with
  | stop he =>
      intro q hq
      rcases hH q hq with rfl | hn
      · exact absurd hq he
      · exact hn
  | @take e e' H H' ds he _ ih =>
      refine ih fun q hq => ?_
      obtain ⟨hne, hq⟩ := Finset.mem_erase.mp hq
      rcases hH q hq with rfl | hn
      · exact absurd rfl hne
      · by_cases hs : q = S.succ e
        · exact Or.inl hs
        · exact Or.inr (S.newer_succ hn hs)

/-! ## One arrival -/

variable {cap : Nat}

/-- An item goes only when it arrives, or out of the held set. -/
theorem Receive.released_mem {Q Q' : Queue ι} {q : ι} {v : Verdict} {ds : List ι}
    (h : Receive S cap Q q v ds Q') : ∀ d ∈ ds, d = q ∨ d ∈ Q.held := by
  intro d hd
  cases h with
  | adopt => exact Or.inl (List.mem_singleton.mp hd)
  | deliver hdr =>
      rcases List.mem_cons.mp hd with rfl | hd
      · exact Or.inl rfl
      · exact Or.inr (hdr.released_mem d hd)
  | hold _ _ => exact absurd hd (List.not_mem_nil)
  | refuse _ _ _ => exact absurd hd (List.not_mem_nil)
  | stale _ _ => exact absurd hd (List.not_mem_nil)

/-- The awaited number is never held once everything held lies ahead of it. -/
theorem Receive.held_iff {Q Q' : Queue ι} {q : ι} {v : Verdict} {ds : List ι}
    (h : Receive S cap Q q v ds Q')
    (ha : ∀ e, Q.next = some e → ∀ x ∈ Q.held, S.newer x e = true)
    (h0 : Q.next = none → Q.held = ∅) (d : ι) :
    d ∈ Q'.held ↔ (q = d ∧ v = .early) ∨ (d ∈ Q.held ∧ d ∉ ds) := by
  cases h with
  | @adopt q H =>
      -- a closed window holds nothing
      have : H = ∅ := h0 rfl
      subst this
      simp
  | @deliver _ e' H H' ds hdr =>
      -- what is held is newer than the next number, so it is not `q` itself
      have hne : d ∈ H → d ≠ q := by
        rintro hd rfl
        have := ha d rfl d hd
        rw [S.newer_irrefl] at this
        exact absurd this (by decide)
      show d ∈ H' ↔ _
      rw [hdr.held_eq d, List.mem_cons, not_or]
      constructor
      · rintro ⟨h1, h2⟩; exact Or.inr ⟨h1, hne h1, h2⟩
      · rintro (⟨_, hv⟩ | ⟨h1, _, h2⟩)
        · exact absurd hv (by decide)
        · exact ⟨h1, h2⟩
  | hold _ _ => simp [eq_comm]
  | refuse _ _ _ => simp
  | stale _ _ => simp

/-- What is held lies ahead of what is awaited, and arrivals keep it so. -/
theorem Receive.ahead {Q Q' : Queue ι} {q : ι} {v : Verdict} {ds : List ι}
    (h : Receive S cap Q q v ds Q')
    (ha : ∀ e, Q.next = some e → ∀ x ∈ Q.held, S.newer x e = true)
    (h0 : Q.next = none → Q.held = ∅) :
    ∀ e, Q'.next = some e → ∀ x ∈ Q'.held, S.newer x e = true := by
  cases h with
  | @adopt q H =>
      intro e _ x hx
      rw [show H = ∅ from h0 rfl] at hx
      exact absurd hx (Finset.notMem_empty x)
  | @deliver _ e' H H' ds hdr =>
      intro e'' he'' x hx
      obtain rfl : e' = e'' := Option.some.inj he''
      refine hdr.ahead (fun y hy => ?_) x hx
      by_cases hs : y = S.succ q
      · exact Or.inl hs
      · exact Or.inr (S.newer_succ (ha q rfl y hy) hs)
  | hold hn _ =>
      intro e' he' x hx
      obtain rfl := Option.some.inj he'
      rcases Finset.mem_insert.mp hx with rfl | hx
      · exact hn
      · exact ha _ rfl x hx
  | refuse _ _ _ => exact ha
  | stale _ _ => exact ha

theorem Receive.next_isSome {Q Q' : Queue ι} {q : ι} {v : Verdict} {ds : List ι}
    (h : Receive S cap Q q v ds Q') : ∃ e, Q'.next = some e := by
  cases h <;> exact ⟨_, rfl⟩

/-! ## Whole histories -/

/-- **The invariant of a queue**: what it holds lies ahead of what it awaits. -/
theorem Run.ahead {h : List (Arrival ι)} {Q : Queue ι} (hr : Run S cap h Q) :
    (∀ e, Q.next = some e → ∀ x ∈ Q.held, S.newer x e = true) ∧ (Q.next = none → Q.held = ∅) := by
  induction hr with
  | nil => exact ⟨by simp, by simp⟩
  | snoc _ hs ih =>
      refine ⟨hs.ahead ih.1 ih.2, fun hn => ?_⟩
      obtain ⟨e, he⟩ := hs.next_isSome
      rw [hn] at he
      exact absurd he (by simp)

/-- **The queue holds exactly what was reported early and has not gone since.** -/
theorem Run.held_iff {h : List (Arrival ι)} {Q : Queue ι} (hr : Run S cap h Q) :
    ∀ d, d ∈ Q.held ↔ Outstanding h d := by
  induction hr with
  | nil => intro d; simp [Outstanding]
  | @snoc h Q Q' a hr hs ih =>
      intro d
      rw [hs.held_iff hr.ahead.1 hr.ahead.2, outstanding_snoc, ih d]

/-- **Items go in order.** All that ever went is one run of consecutive numbers from the first
arrival, and the number awaited is the next after the last of them. -/
theorem Run.released {h : List (Arrival ι)} {Q : Queue ι} (hr : Run S cap h Q) :
    (h = [] ∧ Q.next = none) ∨ ∃ a rest n, h = a :: rest ∧ 1 ≤ n
      ∧ h.flatMap (·.released) = (List.range n).map (fun k => S.succ^[k] a.id)
      ∧ Q.next = some (S.succ^[n] a.id) := by
  induction hr with
  | nil => exact Or.inl ⟨rfl, rfl⟩
  | @snoc h Q Q' a hr hs ih =>
      right
      rcases ih with ⟨rfl, hnone⟩ | ⟨a0, rest, n, rfl, hn, hrel, hnext⟩
      · obtain ⟨nx, H⟩ := Q
        obtain rfl : nx = none := hnone
        obtain ⟨id, v, ds⟩ := a
        dsimp only at hs
        cases hs with
        | adopt => exact ⟨⟨id, .delivered, [id]⟩, [], 1, rfl, Nat.le_refl 1, rfl, rfl⟩
      · refine ⟨a0, rest ++ [a], n + a.released.length, rfl, by omega, ?_⟩
        rw [List.flatMap_append, hrel, List.flatMap_singleton]
        obtain ⟨nx, H⟩ := Q
        obtain rfl : nx = some (S.succ^[n] a0.id) := hnext
        obtain ⟨id, v, ds⟩ := a
        dsimp only at hs ⊢
        -- each verdict either releases nothing or a run starting at the awaited number
        have key : ds = (List.range ds.length).map (fun k => S.succ^[k] (S.succ^[n] a0.id))
            ∧ Q'.next = some (S.succ^[ds.length] (S.succ^[n] a0.id)) := by
          cases hs with
          | @deliver e e' H H' ds hdr =>
              obtain ⟨h1, h2, _⟩ := hdr.consecutive
              refine ⟨?_, by rw [h2]; rfl⟩
              rw [List.length_cons, List.range_succ_eq_map, List.map_cons, List.map_map]
              exact congrArg₂ List.cons rfl h1
          | hold _ _ => exact ⟨rfl, rfl⟩
          | refuse _ _ _ => exact ⟨rfl, rfl⟩
          | stale _ _ => exact ⟨rfl, rfl⟩
        obtain ⟨h1, h2⟩ := key
        constructor
        · rw [List.range_add, List.map_append, List.map_map]
          refine congrArg₂ _ rfl ?_
          conv_lhs => rw [h1]
          refine List.map_congr_left fun k _ => ?_
          show _ = S.succ^[n + k] a0.id
          rw [Nat.add_comm n k, Function.iterate_add_apply]
        · rw [h2, Nat.add_comm n, Function.iterate_add_apply]

end InOrder
