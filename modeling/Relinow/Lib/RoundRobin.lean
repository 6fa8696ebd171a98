import Relinow.Lib.Runs
import Mathlib.Algebra.GroupWithZero.Nat
import Mathlib.Data.Fin.Basic
import Mathlib.Data.List.Nodup

/-!
# Round robin

A scheduler over `n` positions in a circle. At each call it looks at them in
order, starting behind the one it served last, and serves the first that is due.
`round last j` is how many it passes over before it comes to `j`.

A position that stays due gets nearer with every call that serves another one,
so it is served within `n` calls; and what is served before it lies between, each
position farther along than the one before, so none is served twice.
-/

namespace RoundRobin

open Runs

variable {n : Nat} [NeZero n]

/-! ## The circle -/

/-- The position looked at after `count` others, when `last` was served last. -/
def look (n : Nat) [NeZero n] (last count : Nat) : Fin n := Fin.ofNat n (last + 1 + count)

/-- How many positions are looked at before `j`. -/
def round (last : Nat) (j : Fin n) : Nat := (j.val + (n - (last + 1) % n)) % n

theorem round_lt (last : Nat) (j : Fin n) : round last j < n :=
  Nat.mod_lt _ (Nat.pos_of_neZero n)

theorem look_round (last : Nat) (j : Fin n) : look n last (round last j) = j := by
  apply Fin.ext
  have hm := Nat.mod_lt (last + 1) (Nat.pos_of_neZero n)
  calc (last + 1 + (j.val + (n - (last + 1) % n)) % n) % n
      = ((last + 1) % n + (j.val + (n - (last + 1) % n))) % n := by
        rw [Nat.add_mod_mod, Nat.mod_add_mod]
    _ = (j.val + n) % n := by congr 1; omega
    _ = j.val := by rw [Nat.add_mod_right, Nat.mod_eq_of_lt j.isLt]

theorem round_look (last : Nat) {count : Nat} (h : count < n) :
    round last (look n last count) = count := by
  have hm := Nat.mod_lt (last + 1) (Nat.pos_of_neZero n)
  calc ((last + 1 + count) % n + (n - (last + 1) % n)) % n
      = ((last + 1) % n + (count + (n - (last + 1) % n))) % n := by
        rw [Nat.mod_add_mod, Nat.mod_add_mod, Nat.add_assoc (last + 1)]
    _ = (count + n) % n := by congr 1; omega
    _ = count := by rw [Nat.add_mod_right, Nat.mod_eq_of_lt h]

theorem round_injective {last : Nat} {i j : Fin n} (h : round last i = round last j) : i = j := by
  rw [← look_round last i, h, look_round]

/-- Looking on from a position that was looked at. -/
theorem look_look (last k r : Nat) : look n (look n last k).val r = look n last (k + 1 + r) := by
  apply Fin.ext
  show ((last + 1 + k) % n + 1 + r) % n = (last + 1 + (k + 1 + r)) % n
  rw [Nat.add_assoc, Nat.mod_add_mod]
  congr 1
  omega

/-- From a position served on the way, what lies ahead is as much nearer as was passed over. -/
theorem round_ahead {last : Nat} {i x j : Fin n} (hij : round last i < round last j)
    (hx : round i.val x ≤ round i.val j) :
    round last x = round i.val x + (round last i + 1) := by
  have hahead : ∀ r, round last i + 1 + r < n →
      round i.val (look n last (round last i + 1 + r)) = r := by
    intro r hr
    have hlook := look_look (n := n) last (round last i) r
    rw [look_round] at hlook
    rw [← hlook]
    exact round_look i.val (by omega)
  have hj : round i.val j = round last j - (round last i + 1) := by
    have := round_lt last j
    have hr := hahead (round last j - (round last i + 1)) (by omega)
    rwa [Nat.add_sub_cancel' hij, look_round] at hr
  have hlook := look_look (n := n) last (round last i) (round i.val x)
  rw [look_round, look_round] at hlook
  have := round_lt last j
  calc round last x
      = round last (look n last (round last i + 1 + round i.val x)) := by rw [← hlook]
    _ = round last i + 1 + round i.val x := round_look last (by omega)
    _ = round i.val x + (round last i + 1) := Nat.add_comm _ _

/-! ## Schedulers -/

/-- A machine that serves positions: what a call makes of the state, which position it serves, and
which it finds due. -/
structure Scheduler (σ α : Type) (n : Nat) where
  step : σ → α → σ
  served : σ → α → Option (Fin n)
  last : σ → Nat
  due : σ → α → Fin n → Prop

variable {σ α : Type} {m : Scheduler σ α n} {I : σ → Prop}

/-- The call serves the first position that is due, or there is none. -/
def Scheduler.InTurn (m : Scheduler σ α n) (s : σ) (a : α) : Prop :=
  (m.served s a = none ∧ ∀ j, ¬ m.due s a j)
  ∨ ∃ i, m.served s a = some i ∧ (∀ j, round (m.last s) j < round (m.last s) i → ¬ m.due s a j)
    ∧ m.last (m.step s a) = i.val

/-- **What is served on the way to `j`.** While `j` is due and not served, each call serves a
position before `j`, farther along than the last. -/
theorem unserved (hturn : ∀ s a, I s → m.InTurn s a) (hkeep : ∀ s a, I s → I (m.step s a))
    {j : Fin n} {as : List α} : ∀ {s : σ}, I s → Along m.step (fun s a => m.due s a j) s as →
      some j ∉ outputs m.step m.served s as →
      ∃ before : List (Fin n), outputs m.step m.served s as = before.map some
        ∧ before.length ≤ round (m.last s) j
        ∧ (before ++ [j]).Pairwise fun x y => round (m.last s) x < round (m.last s) y := by
  induction as with
  | nil => exact fun _ _ _ => ⟨[], rfl, Nat.zero_le _, List.pairwise_singleton _ _⟩
  | cons a as ih =>
      intro s hs hdue hnot
      obtain ⟨hj, hrest⟩ := hdue
      rw [outputs, List.mem_cons, not_or] at hnot
      rcases hturn s a hs with ⟨_, hnone⟩ | ⟨i, hserved, hfirst, hlast⟩
      · exact absurd hj (hnone j)
      · have hij : i ≠ j := fun h => hnot.1 (h ▸ hserved.symm)
        -- another position is served, one before `j`, and `j` comes nearer
        have hlt : round (m.last s) i < round (m.last s) j := by
          rcases Nat.lt_trichotomy (round (m.last s) i) (round (m.last s) j) with h | h | h
          · exact h
          · exact absurd (round_injective h) hij
          · exact absurd hj (hfirst j h)
        have hahead : ∀ x, round i.val x ≤ round i.val j →
            round (m.last s) x = round i.val x + (round (m.last s) i + 1) :=
          fun x => round_ahead hlt
        have hnear := hahead j (Nat.le_refl _)
        obtain ⟨before, hout, hlen, horder⟩ := ih (hkeep s a hs) hrest hnot.2
        rw [hlast] at hlen horder
        have hle : ∀ x ∈ before ++ [j], round i.val x ≤ round i.val j := by
          intro x hx
          rcases List.mem_append.mp hx with hx | hx
          · have := (List.pairwise_append.mp horder).2.2 x hx j (List.mem_singleton.mpr rfl)
            exact Nat.le_of_lt this
          · rw [List.mem_singleton.mp hx]
        refine ⟨i :: before, ?_, ?_, List.pairwise_cons.mpr ⟨fun x hx => ?_, ?_⟩⟩
        · rw [outputs, hserved, hout]
          rfl
        · rw [List.length_cons]
          omega
        · rw [hahead x (hle x hx)]
          omega
        · refine horder.imp_of_mem fun hx hy h => ?_
          rw [hahead _ (hle _ hx), hahead _ (hle _ hy)]
          omega

section Fair

variable {j : Fin n} {as : List α} {s : σ}

/-- **Round robin is fair.** A position that is due at each call until it is served, is served
within `n` calls. -/
theorem served_within (hturn : ∀ s a, I s → m.InTurn s a) (hkeep : ∀ s a, I s → I (m.step s a))
    (hs : I s) (hlen : n ≤ as.length)
    (hdue : ∀ i a, as[i]? = some a → some j ∉ outputs m.step m.served s (as.take i) →
      m.due (run m.step s (as.take i)) a j) :
    some j ∈ outputs m.step m.served s (as.take n) := by
  by_contra hnot
  obtain ⟨before, hout, hshort, _⟩ := unserved hturn hkeep hs (along_until hdue hnot) hnot
  have hcount := congrArg List.length hout
  rw [outputs_length, List.length_map, List.length_take, Nat.min_eq_left hlen] at hcount
  have := round_lt (m.last s) j
  omega

/-- **In turn.** Before that, no position is served twice. -/
theorem served_once (hturn : ∀ s a, I s → m.InTurn s a) (hkeep : ∀ s a, I s → I (m.step s a))
    (hs : I s)
    (hdue : ∀ i a, as[i]? = some a → some j ∉ outputs m.step m.served s (as.take i) →
      m.due (run m.step s (as.take i)) a j) {k : Nat}
    (hnot : some j ∉ outputs m.step m.served s (as.take k)) :
    (outputs m.step m.served s (as.take k)).Nodup := by
  obtain ⟨before, hout, _, horder⟩ := unserved hturn hkeep hs (along_until hdue hnot) hnot
  have hnodup : before.Nodup := (List.pairwise_append.mp horder).1.imp fun h he => by
    rw [he] at h
    exact absurd h (Nat.lt_irrefl _)
  rw [hout]
  exact hnodup.map fun _ _ => Option.some.inj

end Fair

end RoundRobin
