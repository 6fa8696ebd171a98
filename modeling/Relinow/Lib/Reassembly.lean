import Mathlib.Data.List.Basic
import Mathlib.Tactic.Common

/-!
# Cutting messages up and putting them together again

A sender cuts some of its messages into pieces and sends the others whole. Each
piece of a cut message says that it is one, and the last says so too; which
piece is the first is known to the sender only. The receiver appends pieces
until one is marked last.

With no mark on the first piece the receiver depends on the order it is fed in.
`Fits` is what it needs: a piece that finds nothing gathered is the first of its
message, and one that finds something gathered is the piece sent right after the
one before. Then all that comes out are whole messages.
-/

namespace Reassembly

variable {α : Type}

/-- What the receiver sees of a piece, or of a message sent whole. -/
structure Piece (α : Type) where
  fragment : Bool
  last : Bool
  data : List α
  deriving DecidableEq, Repr

/-- A message, as its sender sends it. -/
inductive Message (α : Type) where
  | whole (data : List α)
  | cut (parts : List (List α))
  deriving DecidableEq, Repr

/-- The pieces of a message in order, each with a mark on the first. -/
def Message.pieces : Message α → List (Bool × Piece α)
  | .whole data => [(true, ⟨false, false, data⟩)]
  | .cut parts => parts.mapIdx fun j part => (j == 0, ⟨true, j + 1 == parts.length, part⟩)

/-- Everything the sender sends, in order. -/
def stream (ms : List (Message α)) : List (Bool × Piece α) := ms.flatMap Message.pieces

/-- One piece at a receiver that has gathered `s` and can hold `cap`: what it has gathered
afterwards, and the message it completes. -/
def step (cap : Nat) (s : Option (List α)) (p : Piece α) : Option (List α) × Option (List α) :=
  if p.fragment then
    if cap < (s.getD [] ++ p.data).length then (none, none)
    else if p.last then (none, some (s.getD [] ++ p.data))
    else (some (s.getD [] ++ p.data), none)
  else (none, none)

/-- The piece at position `n` of the stream fits a receiver that was fed position `prev` last. -/
def Fits (s : Option (List α)) (prev n : Nat) (p : Bool × Piece α) : Prop :=
  p.2.fragment = true → match s with
    | none => p.1 = true
    | some _ => n = prev + 1

instance (s : Option (List α)) (prev n : Nat) (p : Bool × Piece α) :
    Decidable (Fits s prev n p) := by
  unfold Fits
  cases s <;> infer_instance

/-- Every piece fits when its turn comes. Positions beyond the stream are passed over. -/
def InSequence (cap : Nat) (ms : List (Message α)) : Option (List α) → Nat → List Nat → Prop
  | _, _, [] => True
  | s, prev, n :: ns =>
      match (stream ms)[n]? with
      | none => InSequence cap ms s prev ns
      | some p => Fits s prev n p ∧ InSequence cap ms (step cap s p.2).1 n ns

instance decidableInSequence (cap : Nat) (ms : List (Message α)) :
    ∀ (s : Option (List α)) (prev : Nat) (ns : List Nat), Decidable (InSequence cap ms s prev ns)
  | _, _, [] => isTrue trivial
  | s, prev, n :: ns => by
      unfold InSequence
      cases (stream ms)[n]? with
      | none => exact decidableInSequence cap ms s prev ns
      | some p =>
          have := decidableInSequence cap ms (step cap s p.2).1 n ns
          exact inferInstanceAs (Decidable (_ ∧ _))

/-! ## Positions -/

/-- A position of a concatenation lies in one of its parts. -/
theorem flatMap_split {β γ : Type} {g : β → List γ} {b : γ} :
    ∀ {l : List β} {n : Nat}, (l.flatMap g)[n]? = some b →
      ∃ pre a post j, l = pre ++ a :: post ∧ n = (pre.flatMap g).length + j
        ∧ (g a)[j]? = some b := by
  intro l
  induction l with
  | nil => intro n h; exact absurd h (by simp)
  | cons a l ih =>
      intro n h
      rw [List.flatMap_cons, List.getElem?_append] at h
      split at h
      · exact ⟨[], a, l, n, rfl, by simp, h⟩
      · rename_i hn
        obtain ⟨pre, a', post, j, hl, hj, hb⟩ := ih h
        refine ⟨a :: pre, a', post, j, by rw [hl]; rfl, ?_, hb⟩
        rw [List.flatMap_cons, List.length_append]
        omega

theorem stream_get {pre post : List (Message α)} {m : Message α} {j : Nat}
    (hj : j < m.pieces.length) :
    (stream (pre ++ m :: post))[(stream pre).length + j]? = m.pieces[j]? := by
  unfold stream
  rw [List.flatMap_append, List.flatMap_cons, List.getElem?_append_right (Nat.le_add_right _ _),
    Nat.add_sub_cancel_left, List.getElem?_append_left hj]

theorem cut_get {parts : List (List α)} {j : Nat} {p : Bool × Piece α}
    (h : (Message.cut parts).pieces[j]? = some p) :
    ∃ hj : j < parts.length, p = (j == 0, ⟨true, j + 1 == parts.length, parts[j]⟩) := by
  unfold Message.pieces at h
  rw [List.getElem?_mapIdx] at h
  obtain ⟨part, hpart, heq⟩ := Option.map_eq_some_iff.mp h
  obtain ⟨hj, rfl⟩ := List.getElem?_eq_some_iff.mp hpart
  exact ⟨hj, heq.symm⟩

/-- Position `n` of the stream is piece `j` of a message cut into `parts`. -/
def At (ms : List (Message α)) (n : Nat) (parts : List (List α)) (j : Nat) : Prop :=
  ∃ pre post, ms = pre ++ .cut parts :: post ∧ n = (stream pre).length + j ∧ j < parts.length

theorem At.mem {ms : List (Message α)} {n j : Nat} {parts : List (List α)}
    (h : At ms n parts j) : .cut parts ∈ ms := by
  obtain ⟨pre, post, rfl, _⟩ := h
  exact List.mem_append_right _ List.mem_cons_self

theorem At.get {ms : List (Message α)} {n j : Nat} {parts : List (List α)}
    (h : At ms n parts j) {p : Bool × Piece α} (hp : (stream ms)[n]? = some p) :
    ∃ hj : j < parts.length, p = (j == 0, ⟨true, j + 1 == parts.length, parts[j]⟩) := by
  obtain ⟨pre, post, rfl, rfl, hj⟩ := h
  rw [stream_get (by unfold Message.pieces; rwa [List.length_mapIdx])] at hp
  exact cut_get hp

theorem At.succ {ms : List (Message α)} {n j : Nat} {parts : List (List α)}
    (h : At ms n parts j) (hj : j + 1 < parts.length) : At ms (n + 1) parts (j + 1) := by
  obtain ⟨pre, post, rfl, rfl, _⟩ := h
  exact ⟨pre, post, rfl, Nat.add_assoc _ _ _, hj⟩

/-- A piece marked first begins a cut message. -/
theorem at_first {ms : List (Message α)} {n : Nat} {p : Bool × Piece α}
    (hp : (stream ms)[n]? = some p) (hfrag : p.2.fragment = true) (hfirst : p.1 = true) :
    ∃ parts, At ms n parts 0 := by
  obtain ⟨pre, m, post, j, rfl, rfl, hget⟩ := flatMap_split hp
  cases m with
  | whole data =>
      unfold Message.pieces at hget
      rw [List.getElem?_singleton] at hget
      split at hget
      · rw [← Option.some.inj hget] at hfrag
        exact absurd hfrag (by simp)
      · exact absurd hget (by simp)
  | cut parts =>
      obtain ⟨hj, rfl⟩ := cut_get hget
      obtain rfl : j = 0 := by simpa using hfirst
      exact ⟨parts, pre, post, rfl, rfl, hj⟩

/-! ## Feeding the receiver -/

/-- What is gathered is the beginning of a cut message, up to the piece fed last. -/
def Halfway (ms : List (Message α)) (s : Option (List α)) (prev : Nat) : Prop :=
  ∀ buf, s = some buf → ∃ parts j, At ms prev parts j ∧ j + 1 < parts.length
    ∧ buf = (parts.take (j + 1)).flatten

theorem halfway_none (ms : List (Message α)) (prev : Nat) : Halfway ms none prev :=
  fun _ h => absurd h (by simp)

/-- **A piece that fits continues its message**, and what it completes is whole. -/
theorem step_whole (cap : Nat) {ms : List (Message α)} {s : Option (List α)} {prev n : Nat}
    {p : Bool × Piece α} (h : Halfway ms s prev) (hp : (stream ms)[n]? = some p)
    (hfit : Fits s prev n p) :
    Halfway ms (step cap s p.2).1 n
      ∧ ∀ out, (step cap s p.2).2 = some out → ∃ parts, .cut parts ∈ ms ∧ out = parts.flatten := by
  unfold step
  by_cases hfrag : p.2.fragment = true
  · -- where the piece is in its message, and what has been gathered of it
    obtain ⟨parts, j, hat, hgathered⟩ :
        ∃ parts j, At ms n parts j ∧ s.getD [] = (parts.take j).flatten := by
      have hfit' := hfit hfrag
      cases s with
      | none =>
          obtain ⟨parts, hat⟩ := at_first hp hfrag hfit'
          exact ⟨parts, 0, hat, by simp⟩
      | some buf =>
          obtain ⟨parts, j, hat, hj, rfl⟩ := h buf rfl
          obtain rfl : n = prev + 1 := hfit'
          exact ⟨parts, j + 1, hat.succ hj, rfl⟩
    obtain ⟨hj, rfl⟩ := hat.get hp
    have happend : s.getD [] ++ parts[j] = (parts.take (j + 1)).flatten := by
      rw [hgathered, List.take_succ_eq_append_getElem hj, List.flatten_append,
        List.flatten_singleton]
    dsimp only
    rw [if_pos rfl, happend]
    split
    · -- no room: the message is given up
      exact ⟨halfway_none ms n, fun out ho => absurd ho (by simp)⟩
    · -- the last piece completes the message, any other leaves it halfway
      by_cases hlast : j + 1 = parts.length
      · rw [if_pos (by simpa using hlast)]
        refine ⟨halfway_none ms n, fun out ho => ⟨parts, hat.mem, ?_⟩⟩
        rw [← Option.some.inj ho, hlast, List.take_length]
      · rw [if_neg (by simpa using hlast)]
        refine ⟨fun buf hbuf => ⟨parts, j, hat, by omega, (Option.some.inj hbuf).symm⟩, ?_⟩
        exact fun out ho => absurd ho (by simp)
  · rw [if_neg hfrag]
    exact ⟨halfway_none ms n, fun out ho => absurd ho (by simp)⟩

end Reassembly
