import Mathlib.Data.Multiset.Filter
import Mathlib.Data.Multiset.MapFold
import Mathlib.Data.Multiset.Count
import Mathlib.Algebra.Order.Group.Multiset
import Mathlib.Data.Fin.Tuple.Basic

/-!
# Fixed tables scanned first-fit

Firmware without an allocator keeps its records in fixed arrays of slots, each
with a flag saying whether it is taken, and finds its way around them with one
linear scan: the first slot that satisfies a test. This file is the theory of
such a table. A table is a `Vector`, the scan is `firstIdx`, and what the table
*holds* is the multiset `live` of its taken slots.

Every update such a program makes is one of three: fill a free slot, release a
taken one, or overwrite a taken one. `live_fill`, `live_release` and
`live_replace` say what each does to the contents; `free_iff` says that the scan
for a free slot fails exactly when the contents have reached the table's size.
-/

/-- A table is read at the indices of its slots, which are within it by their type. -/
instance Vector.getElemFin {α : Type} {n : Nat} : GetElem (Vector α n) (Fin n) α fun _ _ => True :=
  ⟨fun t i _ => t.get i⟩

/-- The table with one slot written. -/
def Vector.put {α : Type} {n : Nat} (t : Vector α n) (i : Fin n) (x : α) : Vector α n :=
  t.set i.val x i.isLt

namespace SlotTable

variable {α κ : Type} {n : Nat}

/-- Index of the first slot satisfying `p`, in scan order. -/
def firstIdx (p : α → Bool) (t : Vector α n) : Option (Fin n) :=
  Fin.find? fun i => p t[i]

theorem firstIdx_eq_some {p : α → Bool} {t : Vector α n} {i : Fin n} :
    firstIdx p t = some i ↔ p t[i] = true ∧ ∀ j < i, p t[j] = false := by
  unfold firstIdx
  exact Fin.find?_eq_some_iff

theorem firstIdx_eq_none {p : α → Bool} {t : Vector α n} :
    firstIdx p t = none ↔ ∀ i : Fin n, p t[i] = false := by
  unfold firstIdx
  exact Fin.find?_eq_none_iff

theorem firstIdx_sat {p : α → Bool} {t : Vector α n} {i : Fin n}
    (h : firstIdx p t = some i) : p t[i] = true :=
  (firstIdx_eq_some.mp h).1

/-- The only slot that satisfies the test is the first. -/
theorem firstIdx_of_unique {p : α → Bool} {t : Vector α n} {i : Fin n} (hi : p t[i] = true)
    (hu : ∀ j : Fin n, p t[j] = true → j = i) : firstIdx p t = some i := by
  refine firstIdx_eq_some.mpr ⟨hi, fun j hj => ?_⟩
  rw [Bool.eq_false_iff]
  intro hp
  exact absurd (hu j hp) (ne_of_lt hj)

/-- Two tables whose slots answer the test alike are scanned alike. -/
theorem firstIdx_congr {p q : α → Bool} {t u : Vector α n}
    (h : ∀ i : Fin n, p t[i] = q u[i]) : firstIdx p t = firstIdx q u := by
  unfold firstIdx
  exact congrArg Fin.find? (funext h)

/-! ## Reading a table after one write -/

theorem get_val (t : Vector α n) (i : Fin n) (h : i.val < n) : t[i] = t[i.val] := rfl

@[simp] theorem get_mem (t : Vector α n) (i : Fin n) : t[i] ∈ t := Vector.getElem_mem i.isLt

@[simp] theorem get_replicate (x : α) (i : Fin n) : (Vector.replicate n x)[i] = x := by
  rw [get_val _ _ i.isLt, Vector.getElem_replicate]

@[simp] theorem put_self (t : Vector α n) (i : Fin n) (x : α) : (t.put i x)[i] = x := by
  unfold Vector.put
  rw [get_val _ _ i.isLt, Vector.getElem_set_self]

theorem put_ne {t : Vector α n} {i j : Fin n} {x : α} (h : i ≠ j) : (t.put i x)[j] = t[j] := by
  have hv : i.val ≠ j.val := fun he => h (Fin.ext he)
  unfold Vector.put
  rw [get_val _ _ j.isLt, get_val _ _ j.isLt, Vector.getElem_set_ne _ _ hv]

theorem get_put (t : Vector α n) (i j : Fin n) (x : α) :
    (t.put i x)[j] = if i = j then x else t[j] := by
  by_cases h : i = j
  · subst h; rw [put_self, if_pos rfl]
  · rw [put_ne h, if_neg h]

/-- What every slot has, it has after a slot that has it is written. -/
theorem forall_put (P : α → Prop) {t : Vector α n} (h : ∀ i : Fin n, P t[i]) (i : Fin n) {x : α}
    (hx : P x) (j : Fin n) : P (t.put i x)[j] := by
  rw [get_put]
  split
  · exact hx
  · exact h j

/-- The same for two tables slot by slot. -/
theorem forall_put₂ (R : α → α → Prop) {t u : Vector α n} (h : ∀ i : Fin n, R t[i] u[i])
    (i : Fin n) {x y : α} (hx : R x y) (j : Fin n) : R (t.put i x)[j] (u.put i y)[j] := by
  rw [get_put, get_put]
  split
  · exact hx
  · exact h j

theorem put_put (t : Vector α n) (i : Fin n) (x y : α) : (t.put i x).put i y = t.put i y := by
  unfold Vector.put
  ext j hj
  simp only [Vector.getElem_set]
  split <;> rfl

theorem put_get (t : Vector α n) (i : Fin n) : t.put i t[i] = t := by
  unfold Vector.put
  rw [get_val _ _ i.isLt, Vector.set_getElem_self]

/-! ## What a table holds -/

/-- The taken slots, as a multiset. -/
def live (used : α → Bool) (t : Vector α n) : Multiset α :=
  (t.toList : Multiset α).filter (used · = true)

/-- The keys of the taken slots, as a multiset. -/
def keys (used : α → Bool) (key : α → κ) (t : Vector α n) : Multiset κ :=
  (live used t).map key

theorem mem_live {used : α → Bool} {t : Vector α n} {x : α} :
    x ∈ live used t ↔ ∃ i : Fin n, t[i] = x ∧ used x = true := by
  unfold live
  rw [Multiset.mem_filter, Multiset.mem_coe, Vector.mem_toList_iff, Vector.mem_iff_getElem]
  constructor
  · rintro ⟨⟨i, hi, hx⟩, hu⟩; exact ⟨⟨i, hi⟩, hx, hu⟩
  · rintro ⟨i, hx, hu⟩; exact ⟨⟨i.val, i.isLt, hx⟩, hu⟩

theorem get_mem_live {used : α → Bool} {t : Vector α n} {i : Fin n} (h : used t[i] = true) :
    t[i] ∈ live used t :=
  mem_live.mpr ⟨i, rfl, h⟩

theorem mem_keys {used : α → Bool} {key : α → κ} {t : Vector α n} {k : κ} :
    k ∈ keys used key t ↔ ∃ i : Fin n, used t[i] = true ∧ key t[i] = k := by
  unfold keys
  rw [Multiset.mem_map]
  constructor
  · rintro ⟨x, hx, hk⟩
    obtain ⟨i, rfl, hu⟩ := mem_live.mp hx
    exact ⟨i, hu, hk⟩
  · rintro ⟨i, hu, hk⟩; exact ⟨t[i], get_mem_live hu, hk⟩

/-- A table with no slot taken holds nothing. -/
theorem live_of_none {used : α → Bool} {t : Vector α n} (h : ∀ i : Fin n, used t[i] = false) :
    live used t = 0 := by
  rw [Multiset.eq_zero_iff_forall_notMem]
  intro x hx
  obtain ⟨i, rfl, hu⟩ := mem_live.mp hx
  rw [h i] at hu
  exact absurd hu (by decide)

theorem keys_of_none {used : α → Bool} (key : α → κ) {t : Vector α n}
    (h : ∀ i : Fin n, used t[i] = false) : keys used key t = 0 := by
  unfold keys
  rw [live_of_none h, Multiset.map_zero]

theorem card_keys (used : α → Bool) (key : α → κ) (t : Vector α n) :
    (keys used key t).card = (live used t).card :=
  Multiset.card_map key _

/-- The slots around index `i`, which one write at `i` leaves alone. -/
def others (used : α → Bool) (t : Vector α n) (i : Fin n) : Multiset α :=
  (↑(t.toList.take i ++ t.toList.drop (i + 1)) : Multiset α).filter (used · = true)

/-- **The frame of a write.** Whatever is put at `i`, the rest of the contents is `others`. -/
theorem live_set (used : α → Bool) (t : Vector α n) (i : Fin n) (x : α) :
    live used (t.put i x) = (if used x = true then {x} else 0) + others used t i := by
  unfold live others Vector.put
  have hi : i.val < t.toList.length := by simp
  rw [Vector.toList_set, List.set_eq_take_append_cons_drop, if_pos hi]
  rw [← Multiset.coe_add, ← Multiset.coe_add, ← Multiset.cons_coe, Multiset.filter_add,
    Multiset.filter_add, Multiset.filter_cons, add_left_comm]

theorem live_eq (used : α → Bool) (t : Vector α n) (i : Fin n) :
    live used t = (if used t[i] = true then {t[i]} else 0) + others used t i := by
  have h := live_set used t i t[i]
  rwa [put_get] at h

/-- **Filling a free slot adds its record.** -/
theorem live_fill {used : α → Bool} {t : Vector α n} {i : Fin n} {x : α}
    (hi : used t[i] = false) (hx : used x = true) :
    live used (t.put i x) = x ::ₘ live used t := by
  rw [live_set, live_eq used t i, if_pos hx, hi]
  simp

/-- **Releasing a taken slot removes its record.** -/
theorem live_release {used : α → Bool} {t : Vector α n} {i : Fin n} {x : α}
    (hi : used t[i] = true) (hx : used x = false) :
    live used t = t[i] ::ₘ live used (t.put i x) := by
  rw [live_set, live_eq used t i, if_pos hi, hx]
  simp

/-- **Overwriting a taken slot swaps its record.** -/
theorem live_replace {used : α → Bool} {t : Vector α n} {i : Fin n} {x : α}
    (hi : used t[i] = true) (hx : used x = true) :
    ∃ rest, live used t = t[i] ::ₘ rest ∧ live used (t.put i x) = x ::ₘ rest := by
  refine ⟨others used t i, ?_, ?_⟩
  · rw [live_eq used t i, if_pos hi, Multiset.singleton_add]
  · rw [live_set, if_pos hx, Multiset.singleton_add]

theorem keys_fill {used : α → Bool} (key : α → κ) {t : Vector α n} {i : Fin n} {x : α}
    (hi : used t[i] = false) (hx : used x = true) :
    keys used key (t.put i x) = key x ::ₘ keys used key t := by
  unfold keys
  rw [live_fill hi hx, Multiset.map_cons]

theorem keys_release {used : α → Bool} (key : α → κ) {t : Vector α n} {i : Fin n} {x : α}
    (hi : used t[i] = true) (hx : used x = false) :
    keys used key t = key t[i] ::ₘ keys used key (t.put i x) := by
  unfold keys
  rw [live_release hi hx, Multiset.map_cons]

/-- Rewriting a record under the same key leaves the keys alone. -/
theorem keys_replace {used : α → Bool} {key : α → κ} {t : Vector α n} {i : Fin n} {x : α}
    (hi : used t[i] = true) (hx : used x = true) (hk : key x = key t[i]) :
    keys used key (t.put i x) = keys used key t := by
  obtain ⟨rest, h1, h2⟩ := live_replace hi hx
  unfold keys
  rw [h1, h2, Multiset.map_cons, Multiset.map_cons, hk]

/-- With distinct keys, two taken slots with one key are one slot. -/
theorem eq_of_key_eq {used : α → Bool} {key : α → κ} {t : Vector α n} {i j : Fin n}
    (hnd : (keys used key t).Nodup) (hi : used t[i] = true) (hj : used t[j] = true)
    (hk : key t[i] = key t[j]) : i = j := by
  by_contra hne
  -- split off slot `i`, then find slot `j`'s key again among the others
  have h1 := live_eq used t i
  rw [if_pos hi, Multiset.singleton_add] at h1
  have hmem : t[j] ∈ others used t i := by
    unfold others
    rw [Multiset.mem_filter]
    refine ⟨?_, hj⟩
    rw [Multiset.mem_coe, List.mem_append]
    rcases lt_or_gt_of_ne (fun h => hne (Fin.ext h) : i.val ≠ j.val) with h | h
    · right
      rw [List.mem_drop_iff_getElem]
      exact ⟨j.val - (i.val + 1), by simp; omega, by
        simp only [Vector.getElem_toList]
        congr 1; omega⟩
    · left
      rw [List.mem_take_iff_getElem]
      exact ⟨j.val, by simp; omega, by simp [get_val _ j j.isLt]⟩
  unfold keys at hnd
  rw [h1, Multiset.map_cons, Multiset.nodup_cons] at hnd
  exact hnd.1 (Multiset.mem_map.mpr ⟨t[j], hmem, hk.symm⟩)

/-- **A new key keeps keys unique.** The slots are a function of the place here, which may be a row
of a larger table. -/
theorem unique_fill {ι : Type} {used : α → Bool} {key : α → κ} {f g : ι → α} {i : ι} {x : α}
    (hi : g i = x) (hother : ∀ j, j ≠ i → g j = f j)
    (hf : ∀ a b, used (f a) = true → used (f b) = true → key (f a) = key (f b) → a = b)
    (hnew : ∀ j, used (f j) = true → key (f j) ≠ key x) {a b : ι} (ha : used (g a) = true)
    (hb : used (g b) = true) (hkey : key (g a) = key (g b)) : a = b := by
  by_cases hia : a = i
  · by_cases hib : b = i
    · exact hia.trans hib.symm
    · rw [hother b hib] at hb hkey
      rw [hia, hi] at hkey
      exact absurd hkey.symm (hnew b hb)
  · rw [hother a hia] at ha hkey
    by_cases hib : b = i
    · rw [hib, hi] at hkey
      exact absurd hkey (hnew a ha)
    · rw [hother b hib] at hb hkey
      exact hf a b ha hb hkey

/-! ## Room -/

theorem card_live_le (used : α → Bool) (t : Vector α n) : (live used t).card ≤ n := by
  unfold live
  calc _ ≤ (t.toList : Multiset α).card := Multiset.card_le_card (Multiset.filter_le _ _)
    _ = n := by simp

/-- **A free slot exists exactly while the contents are short of the table's size.** -/
theorem free_iff {used : α → Bool} {t : Vector α n} :
    (∃ i : Fin n, used t[i] = false) ↔ (live used t).card < n := by
  constructor
  · rintro ⟨i, hi⟩
    -- the free slot is not counted, and the others are one fewer than the table
    have h := live_eq used t i
    rw [if_neg (by rw [hi]; decide), zero_add] at h
    rw [h]
    unfold others
    calc _ ≤ (↑(t.toList.take i ++ t.toList.drop (i + 1)) : Multiset α).card :=
          Multiset.card_le_card (Multiset.filter_le _ _)
      _ < n := by
          have := i.isLt
          simp
          omega
  · intro h
    by_contra hno
    -- were none free, the filter would keep every slot
    have hall : ∀ x ∈ (t.toList : Multiset α), used x = true := by
      intro x hx
      rw [Multiset.mem_coe, Vector.mem_toList_iff, Vector.mem_iff_getElem] at hx
      obtain ⟨i, hi, rfl⟩ := hx
      cases hu : used t[i] with
      | true => rfl
      | false => exact absurd ⟨⟨i, hi⟩, hu⟩ hno
    unfold live at h
    rw [Multiset.filter_eq_self.mpr hall] at h
    simp at h

/-- How many slots are free. -/
def free (used : α → Bool) (t : Vector α n) : Nat := t.toList.countP fun x => !used x

/-- Every slot is taken or free. -/
theorem card_live_add_free (used : α → Bool) (t : Vector α n) :
    (live used t).card + free used t = n := by
  have h := t.toList.length_eq_countP_add_countP used
  have hlive : (live used t).card = t.toList.countP used := by
    unfold live
    rw [Multiset.filter_coe, Multiset.coe_card, List.countP_eq_length_filter]
    simp
  have hfree : free used t = t.toList.countP fun x => decide ¬used x = true := by
    unfold free
    refine List.countP_congr fun x _ => ?_
    simp
  rw [hlive, hfree, ← h, Vector.length_toList]

/-- Tables whose slots are taken alike have as many free ones. -/
theorem free_congr {used : α → Bool} {t u : Vector α n} (h : ∀ i : Fin n, used t[i] = used u[i]) :
    free used t = free used u := by
  have hmap : t.toList.map used = u.toList.map used := by
    refine List.ext_getElem (by simp) fun i hi _ => ?_
    rw [List.getElem_map, List.getElem_map, Vector.getElem_toList, Vector.getElem_toList]
    exact h ⟨i, by simpa using hi⟩
  have hcount : ∀ xs : List α,
      xs.countP (fun x => !used x) = (xs.map used).countP (fun b => !b) := by
    intro xs
    rw [List.countP_map]
    rfl
  unfold free
  rw [hcount, hcount, hmap]

/-- Filling a free slot takes one. -/
theorem free_fill (used : α → Bool) {t : Vector α n} {i : Fin n} {x : α}
    (hi : used t[i] = false) (hx : used x = true) :
    free used t = free used (t.put i x) + 1 := by
  have h1 := card_live_add_free used t
  have h2 := card_live_add_free used (t.put i x)
  rw [live_fill hi hx, Multiset.card_cons] at h2
  omega

/-- A table with no slot taken is free throughout. -/
theorem free_of_none (used : α → Bool) {t : Vector α n}
    (h : ∀ i : Fin n, used t[i] = false) : free used t = n := by
  have hall := card_live_add_free used t
  rw [live_of_none h, Multiset.card_zero, Nat.zero_add] at hall
  exact hall

theorem free_le (used : α → Bool) (t : Vector α n) : free used t ≤ n := by
  have := card_live_add_free used t
  omega

/-! ## The two scans such programs make -/

/-- The scan for a free slot. -/
theorem freeIdx_some (used : α → Bool) {t : Vector α n} {i : Fin n}
    (h : firstIdx (fun x => !used x) t = some i) : used t[i] = false := by
  have hs := firstIdx_sat h
  rwa [Bool.not_eq_true'] at hs

theorem freeIdx_none (used : α → Bool) {t : Vector α n}
    (h : firstIdx (fun x => !used x) t = none) : (live used t).card = n := by
  have hno : ¬ ∃ i : Fin n, used t[i] = false := by
    rintro ⟨i, hi⟩
    have hs := firstIdx_eq_none.mp h i
    rw [hi] at hs
    exact absurd hs (by decide)
  rw [free_iff] at hno
  have := card_live_le used t
  omega

theorem card_live_lt_of_free {used : α → Bool} {t : Vector α n} {i : Fin n}
    (h : used t[i] = false) : (live used t).card < n :=
  free_iff.mp ⟨i, h⟩

variable [BEq κ] [LawfulBEq κ]

/-- The scan for the slot of a key. -/
theorem keyIdx_some (used : α → Bool) (key : α → κ) {t : Vector α n} {k : κ} {i : Fin n}
    (h : firstIdx (fun x => used x && key x == k) t = some i) :
    used t[i] = true ∧ key t[i] = k := by
  have hs := firstIdx_sat h
  rwa [Bool.and_eq_true, beq_iff_eq] at hs

theorem keyIdx_none (used : α → Bool) (key : α → κ) {t : Vector α n} {k : κ} :
    firstIdx (fun x => used x && key x == k) t = none ↔ k ∉ keys used key t := by
  rw [mem_keys, firstIdx_eq_none]
  constructor
  · rintro h ⟨i, hu, hk⟩
    have hs := h i
    rw [hu, hk, beq_self_eq_true] at hs
    exact absurd hs (by decide)
  · intro h i
    rw [Bool.eq_false_iff]
    intro hs
    rw [Bool.and_eq_true, beq_iff_eq] at hs
    exact h ⟨i, hs⟩

theorem keyIdx_isSome (used : α → Bool) (key : α → κ) {t : Vector α n} {k : κ} :
    (firstIdx (fun x => used x && key x == k) t).isSome = true ↔ k ∈ keys used key t := by
  rw [← not_iff_not, ← keyIdx_none used key, Option.not_isSome_iff_eq_none]

/-- With distinct keys the scan finds *the* slot of the key. -/
theorem keyIdx_eq (used : α → Bool) (key : α → κ) {t : Vector α n} {i : Fin n}
    (hnd : (keys used key t).Nodup) (hi : used t[i] = true) :
    firstIdx (fun x => used x && key x == key t[i]) t = some i := by
  cases hf : firstIdx (fun x => used x && key x == key t[i]) t with
  | none => exact absurd (mem_keys.mpr ⟨i, hi, rfl⟩) ((keyIdx_none used key).mp hf)
  | some j =>
      obtain ⟨hu, hk⟩ := keyIdx_some used key hf
      rw [eq_of_key_eq hnd hu hi hk]

end SlotTable
