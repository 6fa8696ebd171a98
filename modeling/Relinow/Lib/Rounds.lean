import Mathlib.Data.List.ReduceOption
import Relinow.Lib.Runs

/-!
# Rounds

A machine that is asked in rounds: in a round it is asked the same thing again and
again, until it has nothing to hand back.

What it owes may shrink by what it hands back and by nothing else; then the rounds
hand back exactly what is no longer owed. And where each round brings everything
one step closer to its end, the number of rounds is bounded by the farthest.

A run that goes its own way has no rounds, but it may pass marks, and then it is the
marks that are counted.
-/

namespace Runs

variable {σ α β : Type}

/-- One round: the machine is asked `a` until it hands back nothing. -/
inductive Round (step : σ → α → σ) (out : σ → α → Option β) (a : α) : σ → List β → σ → Prop where
  | stop {s : σ} (h : out s a = none) : Round step out a s [] (step s a)
  | next {s s' : σ} {b : β} {bs : List β} (h : out s a = some b)
      (hs : Round step out a (step s a) bs s') : Round step out a s (b :: bs) s'

/-- A round for each question, one after the other. -/
inductive Rounds (step : σ → α → σ) (out : σ → α → Option β) : List α → σ → List β → σ → Prop where
  | nil {s : σ} : Rounds step out [] s [] s
  | cons {a : α} {as : List α} {s s' s'' : σ} {bs cs : List β} (h : Round step out a s bs s')
      (hs : Rounds step out as s' cs s'') : Rounds step out (a :: as) s (bs ++ cs) s''

variable {step : σ → α → σ} {out : σ → α → Option β} {I : σ → Prop}

theorem Round.invariant {a : α} (hstep : ∀ s, I s → I (step s a)) {s s' : σ} {bs : List β}
    (h : Round step out a s bs s') : I s → I s' := by
  induction h with
  | stop _ => exact hstep _
  | next _ _ ih => exact fun hs => ih (hstep _ hs)

/-- What a machine is left with that changes nothing when it hands back nothing. -/
theorem Round.quiet {a : α} (hquiet : ∀ s, I s → out s a = none → step s a = s)
    (hstep : ∀ s, I s → I (step s a)) {s s' : σ} {bs : List β} (h : Round step out a s bs s') :
    I s → out s' a = none := by
  induction h with
  | stop hout =>
      intro hs
      rw [hquiet _ hs hout]
      exact hout
  | next _ _ ih => exact fun hs => ih (hstep _ hs)

/-- **A round ends**, if what is left grows smaller with everything handed back. -/
theorem Round.ends {a : α} {μ : σ → Nat} (hstep : ∀ s, I s → I (step s a))
    (hless : ∀ s b, I s → out s a = some b → μ (step s a) < μ s) :
    ∀ {s : σ}, I s → ∃ bs s', Round step out a s bs s' := by
  have hall : ∀ (n : Nat) {s : σ}, I s → μ s ≤ n → ∃ bs s', Round step out a s bs s' := by
    intro n
    induction n with
    | zero =>
        intro s hs hn
        cases hout : out s a with
        | none => exact ⟨[], _, .stop hout⟩
        | some b => exact absurd (hless s b hs hout) (by omega)
    | succ n ih =>
        intro s hs hn
        cases hout : out s a with
        | none => exact ⟨[], _, .stop hout⟩
        | some b =>
            have hlt := hless s b hs hout
            obtain ⟨bs, s', h⟩ := ih (hstep s hs) (by omega)
            exact ⟨b :: bs, s', .next hout h⟩
  intro s hs
  exact hall _ hs (Nat.le_refl _)

section Owed

variable {owed : σ → Multiset β}

/-- **What is handed back in a round is what is no longer owed.** -/
theorem Round.pays {a : α} (hstep : ∀ s, I s → I (step s a))
    (hpay : ∀ s, I s → (out s a = none ∧ owed (step s a) = owed s)
      ∨ ∃ b, out s a = some b ∧ owed s = b ::ₘ owed (step s a))
    {s s' : σ} {bs : List β} (h : Round step out a s bs s') : I s → owed s = bs + owed s' := by
  induction h with
  | @stop s hout =>
      intro hs
      rcases hpay s hs with ⟨_, hsame⟩ | ⟨b, hb, _⟩
      · rw [hsame, Multiset.coe_nil, Multiset.zero_add]
      · rw [hout] at hb
        exact absurd hb (by simp)
  | @next s s' b bs hout _ ih =>
      intro hs
      rcases hpay s hs with ⟨hnone, _⟩ | ⟨b', hb, howed⟩
      · rw [hout] at hnone
        exact absurd hnone (by simp)
      · obtain rfl := Option.some.inj (hout.symm.trans hb)
        rw [howed, ih (hstep s hs), ← Multiset.cons_coe, Multiset.cons_add]

theorem Rounds.pays (hstep : ∀ s a, I s → I (step s a))
    (hpay : ∀ s a, I s → (out s a = none ∧ owed (step s a) = owed s)
      ∨ ∃ b, out s a = some b ∧ owed s = b ::ₘ owed (step s a))
    {as : List α} {s s' : σ} {bs : List β} (h : Rounds step out as s bs s') :
    I s → owed s = bs + owed s' := by
  induction h with
  | nil =>
      intro _
      rw [Multiset.coe_nil, Multiset.zero_add]
  | @cons a as s s' s'' bs cs hround _ ih =>
      intro hs
      have hs' := hround.invariant (fun s => hstep s a) hs
      rw [hround.pays (fun s => hstep s a) (fun s => hpay s a) hs, ih hs', ← Multiset.coe_add,
        Multiset.add_assoc]

end Owed

/-- **Counting down.** `P n a` says how far things are when a round for `a` begins and `Q n a` when
it is over; a round brings the count to `n`, and a wait from `a` to `a'` takes one off it. -/
theorem Rounds.countdown {P Q : Nat → α → σ → Prop} {wait : α → α → Prop}
    (hround : ∀ n a s bs s', P n a s → Round step out a s bs s' → Q n a s')
    (hwait : ∀ n a a' s, Q (n + 1) a s → wait a a' → P n a' s) :
    ∀ {as : List α} {a : α} {s s' : σ} {bs : List β}, (a :: as).IsChain wait → P as.length a s →
      Rounds step out (a :: as) s bs s' → ∃ z, Q 0 z s' := by
  intro as
  induction as with
  | nil =>
      intro a s s' bs _ hs hrounds
      cases hrounds with
      | cons hone hnil =>
          cases hnil
          exact ⟨a, hround _ _ _ _ _ hs hone⟩
  | cons a' as ih =>
      intro a s s' bs hchain hs hrounds
      cases hrounds with
      | cons hone hrest =>
          have hafter := hround _ _ _ _ _ hs hone
          rw [List.isChain_cons_cons] at hchain
          exact ih hchain.2 (hwait _ _ _ _ hafter hchain.1) hrest

/-- **Rounds end**, if each does. -/
theorem Rounds.ends {μ : α → σ → Nat} (hstep : ∀ s a, I s → I (step s a))
    (hless : ∀ s a b, I s → out s a = some b → μ a (step s a) < μ a s) :
    ∀ {as : List α} {s : σ}, I s → ∃ bs s', Rounds step out as s bs s' := by
  intro as
  induction as with
  | nil => exact fun _ => ⟨[], _, .nil⟩
  | cons a as ih =>
      intro s hs
      obtain ⟨bs, s', hone⟩ :=
        Round.ends (μ := μ a) (fun s => hstep s a) (fun s b => hless s a b) hs
      obtain ⟨cs, s'', hrest⟩ := ih (hone.invariant (fun s => hstep s a) hs)
      exact ⟨bs ++ cs, s'', .cons hone hrest⟩

/-! ## Marks -/

/-- The marks that a run passes. -/
def marks (step : σ → α → σ) (mark : σ → α → Option β) (s : σ) (as : List α) : List β :=
  (outputs step mark s as).reduceOption

section Marks

variable {mark : σ → α → Option β}

theorem marks_cons (s : σ) (a : α) (as : List α) :
    marks step mark s (a :: as) = (mark s a).toList ++ marks step mark (step s a) as := by
  unfold marks
  rw [outputs]
  cases mark s a with
  | none => rfl
  | some b => rfl

/-- **Counting down from mark to mark.** `P b n s` says how far things are when `b` was the last
mark that counts; no step takes them farther away, and a mark that is a wait away from the last one
takes one off. Marks between need not count. -/
theorem marks_countdown {A : α → Prop} {P : β → Nat → σ → Prop} {wait : β → β → Prop}
    (hstep : ∀ b n s a, A a → P b n s → P b n (step s a))
    (hmark : ∀ b b' n s a, mark s a = some b' → wait b b' → P b n s → P b' (n - 1) s) :
    ∀ {as : List α} {b : β} {n : Nat} {s : σ} {bs : List β}, (∀ a ∈ as, A a) → P b n s →
      bs.Sublist (marks step mark s as) → (b :: bs).IsChain wait → n ≤ bs.length →
        ∃ z, P z 0 (run step s as) := by
  intro as
  induction as with
  | nil =>
      intro b n s bs _ hs hsub _ hn
      rw [List.sublist_nil.mp hsub, List.length_nil, Nat.le_zero] at hn
      rw [hn] at hs
      exact ⟨b, hs⟩
  | cons a as ih =>
      intro b n s bs hall hs hsub hchain hn
      obtain ⟨ha, has⟩ := List.forall_mem_cons.mp hall
      rw [marks_cons] at hsub
      cases hm : mark s a with
      | none =>
          rw [hm] at hsub
          exact ih has (hstep b n s a ha hs) hsub hchain hn
      | some b' =>
          rw [hm] at hsub
          cases hsub with
          | cons _ hsub => exact ih has (hstep b n s a ha hs) hsub hchain hn
          | cons_cons _ hsub =>
              rw [List.isChain_cons_cons] at hchain
              rw [List.length_cons] at hn
              have hs' := hstep b' (n - 1) s a ha (hmark b b' n s a hm hchain.1 hs)
              exact ih has hs' hsub hchain.2 (by omega)

end Marks

end Runs
