import Mathlib.Tactic.Common
import Mathlib.Data.Multiset.AddSub

/-!
# Runs of a state machine

A machine is a step function from states and actions to states. A run is a list
of actions; what may happen when, and what is assumed of each step, is a
condition on the state before the step and the action. `Along P` says that every
step of a run meets `P`.

An invariant is proved for one step and holds along every run; a condition that
only some runs meet is one more argument of `Along`.
-/

namespace Runs

variable {σ α : Type}

/-- The state a run ends in. -/
def run (step : σ → α → σ) (s : σ) (as : List α) : σ := as.foldl step s

/-- Every step of the run meets `P`, in the state it is taken in. -/
def Along (step : σ → α → σ) (P : σ → α → Prop) : σ → List α → Prop
  | _, [] => True
  | s, a :: as => P s a ∧ Along step P (step s a) as

instance decidableAlong (step : σ → α → σ) (P : σ → α → Prop) [∀ s a, Decidable (P s a)] :
    ∀ (s : σ) (as : List α), Decidable (Along step P s as)
  | _, [] => isTrue trivial
  | s, a :: as =>
      have := decidableAlong step P (step s a) as
      inferInstanceAs (Decidable (P s a ∧ Along step P (step s a) as))

variable {step : σ → α → σ} {P Q : σ → α → Prop}

theorem run_cons (s : σ) (a : α) (as : List α) : run step s (a :: as) = run step (step s a) as :=
  rfl

theorem run_nil (s : σ) : run step s [] = s := rfl

theorem Along.cons {s : σ} {a : α} {as : List α} (h : P s a) (hs : Along step P (step s a) as) :
    Along step P s (a :: as) :=
  ⟨h, hs⟩

theorem run_append (s : σ) (as bs : List α) :
    run step s (as ++ bs) = run step (run step s as) bs :=
  List.foldl_append

theorem along_append {as bs : List α} :
    ∀ {s : σ}, Along step P s (as ++ bs) ↔ Along step P s as ∧ Along step P (run step s as) bs := by
  induction as with
  | nil => exact ⟨fun h => ⟨trivial, h⟩, fun h => h.2⟩
  | cons a as ih =>
      intro s
      show P s a ∧ Along step P (step s a) (as ++ bs) ↔ _
      rw [ih]
      exact and_assoc.symm

theorem Along.mono (h : ∀ s a, P s a → Q s a) {as : List α} :
    ∀ {s : σ}, Along step P s as → Along step Q s as := by
  induction as with
  | nil => exact fun _ => trivial
  | cons a as ih => exact fun hs => ⟨h _ a hs.1, ih hs.2⟩

theorem Along.of_forall (h : ∀ s a, P s a) :
    ∀ (as : List α) (s : σ), Along step P s as
  | [], _ => trivial
  | a :: as, s => ⟨h s a, Along.of_forall h as _⟩

/-- What holds of every action holds along, wherever the run is. -/
theorem Along.of_mem {P : α → Prop} {as : List α} (h : ∀ a ∈ as, P a) :
    ∀ s : σ, Along step (fun _ a => P a) s as := by
  induction as with
  | nil => exact fun _ => trivial
  | cons a as ih =>
      obtain ⟨ha, has⟩ := List.forall_mem_cons.mp h
      exact fun s => ⟨ha, ih has _⟩

theorem along_and {as : List α} :
    ∀ {s : σ}, Along step (fun s a => P s a ∧ Q s a) s as ↔
      Along step P s as ∧ Along step Q s as := by
  induction as with
  | nil => exact ⟨fun _ => ⟨trivial, trivial⟩, fun _ => trivial⟩
  | cons a as ih =>
      intro s
      show (P s a ∧ Q s a) ∧ Along step _ (step s a) as ↔ _
      rw [ih]
      exact and_and_and_comm

/-- Two conditions that agree along a run. -/
theorem Along.congr {as : List α} :
    ∀ {s : σ}, Along step (fun s a => P s a ↔ Q s a) s as →
      (Along step P s as ↔ Along step Q s as) := by
  induction as with
  | nil => exact fun _ => Iff.rfl
  | cons a as ih => exact fun h => and_congr h.1 (ih h.2)

/-- A condition along a run, step by step. -/
theorem along_iff {as : List α} :
    ∀ {s : σ}, Along step P s as ↔ ∀ i a, as[i]? = some a → P (run step s (as.take i)) a := by
  induction as with
  | nil => exact ⟨fun _ i a h => by simp at h, fun _ => trivial⟩
  | cons a as ih =>
      intro s
      show P s a ∧ Along step P (step s a) as ↔ _
      rw [ih]
      constructor
      · rintro ⟨h0, hs⟩ i b hb
        cases i with
        | zero => exact Option.some.inj hb ▸ h0
        | succ i => exact hs i b hb
      · exact fun h => ⟨h 0 a rfl, fun i b hb => h (i + 1) b hb⟩

/-- **The invariant rule.** What one admissible step keeps, every admissible run keeps. -/
theorem invariant {I : σ → Prop} (hstep : ∀ s a, I s → P s a → I (step s a)) {as : List α} :
    ∀ {s : σ}, I s → Along step P s as → I (run step s as) := by
  induction as with
  | nil => exact fun hi _ => hi
  | cons a as ih => exact fun hi hs => ih (hstep _ a hi hs.1) hs.2

/-- **What an invariant gives at each step**, it gives along every run. -/
theorem along_of_invariant {I : σ → Prop} (hstep : ∀ s a, I s → P s a → I (step s a))
    (hkeep : ∀ s a, I s → P s a → Q s a) {as : List α} :
    ∀ {s : σ}, I s → Along step P s as → Along step Q s as := by
  induction as with
  | nil => exact fun _ _ => trivial
  | cons a as ih => exact fun hi hs => ⟨hkeep _ a hi hs.1, ih (hstep _ a hi hs.1) hs.2⟩

/-- **The exact condition.** If `P` is what one step needs to keep `G`, then `G` holds all along a
run exactly when every step of it meets `P`. Only the actions in `A` are taken. -/
theorem always_iff_along {I G : σ → Prop} {A : α → Prop}
    (hstep : ∀ s a, A a → I s → G s → ((G (step s a) ↔ P s a) ∧ (P s a → I (step s a))))
    {as : List α} : ∀ {s : σ}, (∀ a ∈ as, A a) → I s → G s →
      ((∀ k, G (run step s (as.take k))) ↔ Along step P s as) := by
  induction as with
  | nil =>
      intro s _ _ hg
      refine ⟨fun _ => trivial, fun _ k => ?_⟩
      rw [List.take_nil]
      exact hg
  | cons a as ih =>
      intro s ha hi hg
      obtain ⟨hiff, hkeep⟩ := hstep s a (ha a List.mem_cons_self) hi hg
      have has : ∀ b ∈ as, A b := fun b hb => ha b (List.mem_cons_of_mem _ hb)
      constructor
      · intro h
        have hp := hiff.mp (h 1)
        exact ⟨hp, (ih has (hkeep hp) (h 1)).mp fun k => h (k + 1)⟩
      · rintro ⟨hp, hs⟩ k
        cases k with
        | zero => exact hg
        | succ k => exact (ih has (hkeep hp) (hiff.mpr hp)).mpr hs k

/-- **What lasts until something happens**: if every step keeps `I` unless it is an `E`, then from
the `i`-th step on `I` holds as long as there is none. -/
theorem lasts {I : σ → Prop} {E : σ → α → Prop} (hstep : ∀ s a, I s → ¬ E s a → I (step s a))
    {s : σ} {as : List α} {i : Nat} (hi : I (run step s (as.take i))) :
    ∀ d, (∀ k a, i ≤ k → k < i + d → as[k]? = some a → ¬ E (run step s (as.take k)) a) →
      I (run step s (as.take (i + d))) := by
  intro d
  induction d with
  | zero => exact fun _ => hi
  | succ d ih =>
      intro hnone
      have hprev := ih fun k a hk hlt => hnone k a hk (by omega)
      rw [← Nat.add_assoc, List.take_add_one, run_append]
      cases ha : as[i + d]? with
      | none => exact hprev
      | some a => exact hstep _ a hprev (hnone (i + d) a (by omega) (by omega) ha)

/-! ## Two runs

Two runs of a machine, the second by actions that `f` makes of those of the first. If
one step in each keeps the states related, and hands back the same, the runs hand back
the same from beginning to end.
-/

section Outputs

variable {β : Type} {out : σ → α → β}

/-- What the steps of a run hand back. -/
def outputs (step : σ → α → σ) (out : σ → α → β) : σ → List α → List β
  | _, [] => []
  | s, a :: as => out s a :: outputs step out (step s a) as

/-- What the steps hand back, step by step. -/
theorem outputs_get {as : List α} :
    ∀ {s : σ} (i : Nat), (outputs step out s as)[i]?
      = as[i]?.map (out (run step s (as.take i))) := by
  induction as with
  | nil => exact fun _ => rfl
  | cons a as ih =>
      intro s i
      cases i with
      | zero => rfl
      | succ i => exact ih i

theorem outputs_length {as : List α} : ∀ {s : σ}, (outputs step out s as).length = as.length := by
  induction as with
  | nil => exact rfl
  | cons a as ih => exact congrArg Nat.succ ih

theorem outputs_append {as bs : List α} :
    ∀ {s : σ}, outputs step out s (as ++ bs)
      = outputs step out s as ++ outputs step out (run step s as) bs := by
  induction as with
  | nil => exact rfl
  | cons a as ih => exact congrArg (List.cons _) ih

/-- Reading something off what the steps hand back. -/
theorem outputs_map {γ : Type} {f : β → γ} {as : List α} :
    ∀ {s : σ}, outputs step (fun s a => f (out s a)) s as = (outputs step out s as).map f := by
  induction as with
  | nil => exact rfl
  | cons a as ih => exact congrArg (List.cons _) ih

/-- What is so at each step until `b` is handed back, is so at each of the steps before. -/
theorem along_until {b : β} {s : σ} {as : List α} {k : Nat}
    (h : ∀ i a, as[i]? = some a → b ∉ outputs step out s (as.take i) → P (run step s (as.take i)) a)
    (hnot : b ∉ outputs step out s (as.take k)) : Along step P s (as.take k) := by
  refine along_iff.mpr fun i a hi => ?_
  have hik : i < k := by
    have := (List.getElem?_eq_some_iff.mp hi).1
    rw [List.length_take] at this
    omega
  have htake : (as.take k).take i = as.take i := by
    rw [List.take_take, Nat.min_eq_left (Nat.le_of_lt hik)]
  rw [List.getElem?_take_of_lt hik] at hi
  rw [htake]
  refine h i a hi fun hmem => hnot ?_
  rw [← List.take_append_drop i (as.take k), htake, outputs_append]
  exact List.mem_append_left _ hmem

/-- **The rule for two machines**: one step of each, taken in related states, keeps them related
and hands back the same. -/
theorem outputs_simulated {τ : Type} {step' : τ → α → τ} {out' : τ → α → β} {R : σ → τ → Prop}
    {P : τ → α → Prop}
    (hstep : ∀ s t a, R s t → P t a → R (step s a) (step' t a) ∧ out s a = out' t a)
    {as : List α} : ∀ {s : σ} {t : τ}, R s t → Along step' P t as →
      R (run step s as) (run step' t as) ∧ outputs step out s as = outputs step' out' t as := by
  induction as with
  | nil => exact fun hr _ => ⟨hr, rfl⟩
  | cons a as ih =>
      intro s t hr hs
      obtain ⟨hr', hout⟩ := hstep s t a hr hs.1
      obtain ⟨hend, hsame⟩ := ih hr' hs.2
      refine ⟨hend, ?_⟩
      rw [outputs, outputs, hout, hsame]

/-- **The rule for two runs.** -/
theorem outputs_related {R : σ → σ → Prop} {f : α → α}
    (hstep : ∀ s t a, R s t → R (step s a) (step t (f a)))
    (hout : ∀ s t a, R s t → out t (f a) = out s a) {as : List α} :
    ∀ {s t : σ}, R s t → R (run step s as) (run step t (as.map f))
      ∧ outputs step out t (as.map f) = outputs step out s as := by
  induction as with
  | nil => exact fun hr => ⟨hr, rfl⟩
  | cons a as ih =>
      intro s t hr
      obtain ⟨hend, hsame⟩ := ih (hstep s t a hr)
      rw [List.map_cons, outputs, outputs, hout s t a hr, hsame]
      exact ⟨hend, rfl⟩

/-- **The rule for refinements**: if a machine that is more abstract matches each step by steps of
its own, from related states to related states, it matches every run. Its state may keep books:
what each step enters in them is what the run enters. -/
theorem refines {τ γ δ ι : Type} {step' : τ → γ → τ} {P' : τ → γ → Prop} {R : σ → τ → Prop}
    {book : ι → τ → List δ} {enters : ι → σ → α → List δ}
    (hstep : ∀ s t a, R s t → P s a → ∃ bs, Along step' P' t bs ∧ R (step s a) (run step' t bs)
      ∧ ∀ i, book i (run step' t bs) = book i t ++ enters i s a) {as : List α} :
    ∀ {s : σ} {t : τ}, R s t → Along step P s as →
      ∃ bs, Along step' P' t bs ∧ R (run step s as) (run step' t bs)
        ∧ ∀ i, book i (run step' t bs) = book i t ++ (outputs step (enters i) s as).flatten := by
  induction as with
  | nil => exact fun hr _ => ⟨[], trivial, hr, fun i => (List.append_nil _).symm⟩
  | cons a as ih =>
      intro s t hr hs
      obtain ⟨bs, hbs, hr', hbook⟩ := hstep s t a hr hs.1
      obtain ⟨cs, hcs, hend, hbooks⟩ := ih hr' hs.2
      refine ⟨bs ++ cs, along_append.mpr ⟨hbs, hcs⟩, ?_, fun i => ?_⟩
      · rw [run_append]
        exact hend
      · rw [run_append, hbooks, hbook, outputs, List.flatten_cons, List.append_assoc]

end Outputs

/-! ## Histories

A log that only grows. What is asked of an entry is asked in view of those before it.
-/

/-- One more entry. -/
theorem history_snoc {P : List α → α → Prop} {log : List α} {x : α}
    (h : ∀ k a, log[k]? = some a → P (log.take k) a) (hx : P log x) :
    ∀ k a, (log ++ [x])[k]? = some a → P ((log ++ [x]).take k) a := by
  intro k a hk
  rcases Nat.lt_trichotomy k log.length with hlt | rfl | hgt
  · rw [List.getElem?_append_left hlt] at hk
    rw [List.take_append_of_le_length (Nat.le_of_lt hlt)]
    exact h k a hk
  · rw [List.getElem?_concat_length] at hk
    rw [List.take_left, ← Option.some.inj hk]
    exact hx
  · rw [List.getElem?_eq_none (by rw [List.length_append, List.length_singleton]; omega)] at hk
    exact absurd hk (by simp)

/-! ## Loops

A loop's body either goes on from a new state or leaves with a result. How many
rounds it makes is found out by running it: there is no bound in the loop itself.
-/

variable {β : Type}

/-- The loop makes `n` rounds from `s`, the last of which leaves it with `b`. -/
inductive LoopRuns (body : σ → σ ⊕ β) : σ → Nat → β → Prop where
  | exit {s : σ} {b : β} (h : body s = .inr b) : LoopRuns body s 1 b
  | next {s s' : σ} {n : Nat} {b : β} (h : body s = .inl s') (hs : LoopRuns body s' n b) :
      LoopRuns body s (n + 1) b

/-- **The rule for loops**: a function that counts its rounds down computes the loop if it is
given as many as a variant allows, and so the loop ends. -/
theorem LoopRuns.of_fuel {body : σ → σ ⊕ β} {f : Nat → σ → β} {I : σ → Prop} {μ : σ → Nat}
    (hexit : ∀ n s b, I s → μ s ≤ n → body s = .inr b → f n s = b)
    (hnext : ∀ n s s', I s → body s = .inl s' → I s' ∧ μ s' < μ s ∧ f (n + 1) s = f n s') :
    ∀ (n : Nat) (s : σ), I s → μ s ≤ n → ∃ m, m ≤ μ s + 1 ∧ LoopRuns body s m (f n s) := by
  intro n
  induction n with
  | zero =>
      intro s hs hn
      cases hbody : body s with
      | inr b => exact ⟨1, Nat.le_add_left 1 _, hexit 0 s b hs hn hbody ▸ LoopRuns.exit hbody⟩
      | inl s' =>
          have hlt := (hnext 0 s s' hs hbody).2.1
          omega
  | succ n ih =>
      intro s hs hn
      cases hbody : body s with
      | inr b => exact ⟨1, Nat.le_add_left 1 _, hexit (n + 1) s b hs hn hbody ▸ LoopRuns.exit hbody⟩
      | inl s' =>
          obtain ⟨hs', hlt, heq⟩ := hnext n s s' hs hbody
          obtain ⟨m, hm, hloop⟩ := ih s' hs' (by omega)
          exact ⟨m + 1, by omega, heq ▸ LoopRuns.next hbody hloop⟩

/-! ## Draining

A machine that is asked the same again and again, until it has nothing to hand back.
-/

/-- One round of the loop that asks `a` until nothing is handed back. -/
def untilNone (step : σ → α → σ) (out : σ → α → Option β) (a : α) (s : σ) : σ ⊕ σ :=
  match out s a with
  | none => .inr s
  | some _ => .inl (step s a)

/-- **The rule for draining**: if each step hands back one of the things that are left and leaves
the others, or nothing is left and nothing changes, all of them are handed back, each once, and
then nothing ever. -/
theorem drained {out : σ → α → Option β} {left : σ → Multiset β} {I : σ → Prop} {a : α}
    (hstep : ∀ s, I s → (out s a = none ∧ step s a = s ∧ left s = 0)
      ∨ ∃ b, out s a = some b ∧ I (step s a) ∧ left s = b ::ₘ left (step s a)) :
    ∀ {s : σ}, I s → ∃ bs : List β, (bs : Multiset β) = left s
      ∧ (∀ m, outputs step out s (List.replicate (bs.length + m) a)
        = bs.map some ++ List.replicate m none)
      ∧ LoopRuns (untilNone step out a) s (bs.length + 1)
        (run step s (List.replicate bs.length a)) := by
  have hall : ∀ (n : Nat) {s : σ}, I s → (left s).card = n → ∃ bs : List β,
      (bs : Multiset β) = left s
      ∧ (∀ m, outputs step out s (List.replicate (bs.length + m) a)
        = bs.map some ++ List.replicate m none)
      ∧ LoopRuns (untilNone step out a) s (bs.length + 1)
        (run step s (List.replicate bs.length a)) := by
    intro n
    induction n with
    | zero =>
        intro s hs hcard
        rcases hstep s hs with ⟨hout, hsame, hleft⟩ | ⟨b, _, _, hleft⟩
        · -- nothing is left, and so it stays
          have hnone : ∀ m, outputs step out s (List.replicate m a) = List.replicate m none := by
            intro m
            induction m with
            | zero => rfl
            | succ m ih => rw [List.replicate_succ, outputs, hout, hsame, ih, List.replicate_succ]
          refine ⟨[], hleft.symm, fun m => ?_, LoopRuns.exit ?_⟩
          · rw [List.length_nil, Nat.zero_add]
            exact hnone m
          · unfold untilNone
            rw [hout]
            rfl
        · rw [hleft, Multiset.card_cons] at hcard
          exact absurd hcard (Nat.succ_ne_zero _)
    | succ n ih =>
        intro s hs hcard
        rcases hstep s hs with ⟨_, _, hleft⟩ | ⟨b, hout, hs', hleft⟩
        · rw [hleft, Multiset.card_zero] at hcard
          exact absurd hcard.symm (Nat.succ_ne_zero _)
        · rw [hleft, Multiset.card_cons] at hcard
          obtain ⟨bs, hbs, houts, hloop⟩ := ih hs' (Nat.succ.inj hcard)
          have hround : untilNone step out a s = .inl (step s a) := by
            unfold untilNone
            rw [hout]
          refine ⟨b :: bs, ?_, fun m => ?_, LoopRuns.next hround hloop⟩
          · rw [hleft, ← hbs, Multiset.cons_coe]
          · rw [List.length_cons, Nat.add_right_comm, List.replicate_succ, outputs, hout, houts]
            rfl
  intro s hs
  exact hall _ hs rfl

end Runs
