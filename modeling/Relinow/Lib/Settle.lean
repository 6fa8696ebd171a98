import Mathlib.Logic.Function.Iterate

/-!
# Iterations that settle

A function is applied over and over. If each application that changes anything
makes a natural measure smaller, then after as many applications as the measure
allows nothing changes any more.
-/

namespace Settle

variable {α : Type} {f : α → α} {μ : α → Nat}

/-- What changes gets closer. -/
def Descends (f : α → α) (μ : α → Nat) : Prop := ∀ x, f x = x ∨ μ (f x) < μ x

/-- **Iteration settles** within the measure. -/
theorem Descends.fixed (h : Descends f μ) :
    ∀ (n : Nat) (x : α), μ x ≤ n → f (f^[n] x) = f^[n] x := by
  intro n
  induction n with
  | zero =>
      intro x hn
      rcases h x with hx | hlt
      · exact hx
      · omega
  | succ n ih =>
      intro x hn
      rw [Function.iterate_succ_apply]
      rcases h x with hx | hlt
      · rw [hx, Function.iterate_fixed hx n, hx]
      · exact ih (f x) (by omega)

/-- From there on every iterate is the same. -/
theorem Descends.settled (h : Descends f μ) {x : α} {n : Nat} (hn : μ x ≤ n) :
    f^[n] x = f^[μ x] x := by
  obtain ⟨k, rfl⟩ := Nat.exists_eq_add_of_le hn
  rw [Nat.add_comm, Function.iterate_add_apply]
  exact Function.iterate_fixed (h.fixed (μ x) x (Nat.le_refl _)) k

end Settle
