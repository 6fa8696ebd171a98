import Relinow.Lib.SlotTable

/-!
# Registries

A registry takes entries under distinct keys, up to a capacity, and never gives one
up: an entry is known by its position from then on. It carries the proof that keys
are distinct, that every entry is sound and that there is room for all, so that no
operation has to check it again.

The usual implementation is a table of slots with a flag in each. `fill` lays a
list out in such a table; what the scans over the flags find is what the registry
finds.
-/

open SlotTable

structure Registry (α κ : Type) (key : α → κ) (ok : α → Prop) (cap : Nat) where
  entries : List α
  distinct : (entries.map key).Nodup
  sound : ∀ x ∈ entries, ok x
  room : entries.length ≤ cap

namespace Registry

variable {α β κ : Type} {key : α → κ} {ok : α → Prop} {cap : Nat}

/-- Changing an entry but not its key changes no key. -/
theorem keys_modify {f : α → α} (hkey : ∀ x, key (f x) = key x) :
    ∀ (l : List α) (i : Nat), (l.modify i f).map key = l.map key
  | [], i => by rw [List.modify_nil]
  | x :: l, 0 => by rw [List.modify_zero_cons, List.map_cons, List.map_cons, hkey]
  | x :: l, i + 1 => by
      rw [List.modify_succ_cons, List.map_cons, List.map_cons, keys_modify hkey l i]

def empty : Registry α κ key ok cap :=
  ⟨[], List.nodup_nil, fun _ hx => absurd hx List.not_mem_nil, Nat.zero_le cap⟩

/-- The entry at a position. -/
def get? (r : Registry α κ key ok cap) (i : Nat) : Option α := r.entries[i]?

/-- Changes the entry at a position, but not its key. -/
def modify (r : Registry α κ key ok cap) (i : Nat) (f : α → α) (hkey : ∀ x, key (f x) = key x)
    (hok : ∀ x, ok x → ok (f x)) : Registry α κ key ok cap where
  entries := r.entries.modify i f
  distinct := (keys_modify hkey r.entries i).symm ▸ r.distinct
  sound := by
    intro x hx
    obtain ⟨j, hj⟩ := List.mem_iff_getElem?.mp hx
    rw [List.getElem?_modify] at hj
    obtain ⟨y, hy, rfl⟩ := Option.map_eq_some_iff.mp hj
    have hsound := r.sound y (List.mem_of_getElem? hy)
    by_cases h : i = j
    · rw [if_pos h]
      exact hok y hsound
    · rw [if_neg h]
      exact hsound
  room := by
    rw [List.length_modify]
    exact r.room

variable [BEq κ] [LawfulBEq κ]

/-- The position of the entry with a key. -/
def find? (r : Registry α κ key ok cap) (k : κ) : Option Nat :=
  r.entries.findIdx? fun x => key x == k

theorem find?_eq_none {r : Registry α κ key ok cap} {k : κ} :
    r.find? k = none ↔ ∀ x ∈ r.entries, key x ≠ k := by
  unfold find?
  rw [List.findIdx?_eq_none_iff]
  simp

theorem find?_get? {r : Registry α κ key ok cap} {k : κ} {i : Nat} (h : r.find? k = some i) :
    ∃ x, r.get? i = some x ∧ key x = k := by
  obtain ⟨hi, hk, -⟩ := List.findIdx?_eq_some_iff_getElem.mp h
  exact ⟨_, List.getElem?_eq_getElem hi, eq_of_beq hk⟩

/-- A position is found under its key. -/
theorem find?_of_get? {r : Registry α κ key ok cap} {i : Nat} {x : α} (h : r.get? i = some x) :
    r.find? (key x) = some i := by
  obtain ⟨hi, rfl⟩ := List.getElem?_eq_some_iff.mp h
  refine List.findIdx?_eq_some_iff_getElem.mpr ⟨hi, beq_self_eq_true _, fun j hji hj => ?_⟩
  have hnodup := List.pairwise_iff_getElem.mp r.distinct j i
    (by rw [List.length_map]; omega) (by rw [List.length_map]; exact hi) hji
  rw [List.getElem_map, List.getElem_map] at hnodup
  exact hnodup (eq_of_beq hj)

/-- Adds an entry if its key is new and there is room. -/
def add (r : Registry α κ key ok cap) (x : α) (hx : ok x) : Registry α κ key ok cap :=
  if h : r.find? (key x) = none ∧ r.entries.length < cap then
    { entries := r.entries ++ [x]
      distinct := by
        rw [List.map_append, List.map_singleton]
        refine List.nodup_append.mpr ⟨r.distinct, List.nodup_singleton _, fun k hk k' hk' => ?_⟩
        obtain ⟨y, hy, rfl⟩ := List.mem_map.mp hk
        rw [List.mem_singleton.mp hk']
        exact find?_eq_none.mp h.1 y hy
      sound := fun y hy => (List.mem_append.mp hy).elim (r.sound y)
        fun hy => List.mem_singleton.mp hy ▸ hx
      room := by
        rw [List.length_append]
        exact h.2 }
  else r

theorem add_entries {r : Registry α κ key ok cap} {x : α} (hx : ok x)
    (hnew : r.find? (key x) = none) (hroom : r.entries.length < cap) :
    (r.add x hx).entries = r.entries ++ [x] := by
  unfold add
  rw [dif_pos ⟨hnew, hroom⟩]

/-! ## First come -/

/-- The first `cap` keys that differ, in the order they came. -/
def firstCome (cap : Nat) (ks : List κ) : List κ := ks.eraseDups.take cap

omit [LawfulBEq κ] in
theorem firstCome_nil (cap : Nat) : firstCome cap ([] : List κ) = [] := List.take_nil

/-- A key is taken if it is new and there is room. -/
theorem firstCome_snoc (cap : Nat) (ks : List κ) (k : κ) :
    firstCome cap (ks ++ [k])
      = if k ∈ firstCome cap ks ∨ cap ≤ (firstCome cap ks).length then firstCome cap ks
        else firstCome cap ks ++ [k] := by
  unfold firstCome
  rw [List.eraseDups_append]
  by_cases hk : k ∈ ks
  · -- it came before: it is among the first, or they are complete
    have hgone : List.removeAll [k] ks = [] := by simp [List.removeAll, hk]
    have hin : k ∈ ks.eraseDups := List.mem_eraseDups.mpr hk
    rw [hgone, List.eraseDups_nil, List.append_nil, if_pos]
    by_contra hnot
    rw [not_or, List.length_take] at hnot
    refine hnot.1 ?_
    rw [List.take_of_length_le (by omega)]
    exact hin
  · have hnew : List.removeAll [k] ks = [k] := by simp [List.removeAll, hk]
    have hout : k ∉ ks.eraseDups := fun h => hk (List.mem_eraseDups.mp h)
    rw [hnew, show [k].eraseDups = [k] from rfl]
    rcases Nat.lt_or_ge ks.eraseDups.length cap with hlt | hge
    · rw [List.take_of_length_le (Nat.le_of_lt hlt), if_neg (not_or.mpr ⟨hout, by omega⟩),
        List.take_of_length_le (by rw [List.length_append]; exact hlt)]
    · rw [if_pos (Or.inr (by rw [List.length_take]; omega)), List.take_append_of_le_length hge]

end Registry

namespace SlotTable

variable {α : Type} {n : Nat}

/-! ## A list laid out in a table -/

/-- The list in the first slots, and `zero` in the others. -/
def fill (zero : α) (l : List α) : Vector α n := Vector.ofFn fun i => l.getD i.val zero

theorem get_fill (zero : α) (l : List α) (i : Fin n) :
    (fill zero l : Vector α n)[i] = l[i.val]?.getD zero := by
  rw [get_val _ i i.isLt, fill, Vector.getElem_ofFn, List.getD_eq_getElem?_getD]

theorem ext_get {t u : Vector α n} (h : ∀ i : Fin n, t[i] = u[i]) : t = u :=
  Vector.ext fun i hi => h ⟨i, hi⟩

theorem fill_nil (zero : α) : (fill zero [] : Vector α n) = Vector.replicate n zero := by
  apply ext_get
  intro i
  rw [get_fill, get_replicate]
  rfl

theorem fill_append (zero : α) {l : List α} {i : Fin n} (hi : i.val = l.length) (x : α) :
    (fill zero l : Vector α n).put i x = fill zero (l ++ [x]) := by
  apply ext_get
  intro j
  rw [get_put, get_fill, get_fill]
  by_cases hij : i = j
  · subst hij
    rw [if_pos rfl, hi, List.getElem?_concat_length]
    rfl
  · rw [if_neg hij]
    have hval : i.val ≠ j.val := fun he => hij (Fin.ext he)
    rcases Nat.lt_or_ge j.val l.length with hlt | hge
    · rw [List.getElem?_append_left hlt]
    · rw [List.getElem?_eq_none hge,
        List.getElem?_eq_none (by rw [List.length_append]; simp; omega)]

/-- A scan finds in the table what it finds in the list. -/
theorem firstIdx_fill {p : α → Bool} {zero : α} (hzero : p zero = false) {l : List α}
    (hlen : l.length ≤ n) :
    (firstIdx p (fill zero l : Vector α n)).map Fin.val = l.findIdx? p := by
  cases hf : firstIdx p (fill zero l : Vector α n) with
  | none =>
      symm
      show l.findIdx? p = none
      rw [List.findIdx?_eq_none_iff]
      intro x hx
      obtain ⟨i, hi, rfl⟩ := List.mem_iff_getElem.mp hx
      have := firstIdx_eq_none.mp hf ⟨i, by omega⟩
      rw [get_fill, List.getElem?_eq_getElem hi] at this
      exact this
  | some i =>
      obtain ⟨hi, hbefore⟩ := firstIdx_eq_some.mp hf
      rw [get_fill] at hi
      have hlt : i.val < l.length := by
        by_contra hge
        rw [List.getElem?_eq_none (by omega)] at hi
        rw [Option.getD_none, hzero] at hi
        exact absurd hi (by decide)
      rw [List.getElem?_eq_getElem hlt] at hi
      refine (List.findIdx?_eq_some_iff_getElem.mpr ⟨hlt, hi, fun j hji => ?_⟩).symm
      have := hbefore ⟨j, hji.trans i.isLt⟩ hji
      rw [get_fill, List.getElem?_eq_getElem (hji.trans hlt)] at this
      simpa using this

/-- The first free slot is the one behind the list. -/
theorem freeIdx_fill {used : α → Bool} {zero : α} (hzero : used zero = false) {l : List α}
    (hused : ∀ x ∈ l, used x = true) (hlen : l.length ≤ n) :
    (firstIdx (fun x => !used x) (fill zero l : Vector α n)).map Fin.val
      = if l.length < n then some l.length else none := by
  cases hf : firstIdx (fun x => !used x) (fill zero l : Vector α n) with
  | none =>
      have hfull : ¬ l.length < n := by
        intro hlt
        have := firstIdx_eq_none.mp hf ⟨l.length, hlt⟩
        rw [get_fill, List.getElem?_eq_none (Nat.le_refl _), Option.getD_none, hzero] at this
        exact absurd this (by decide)
      rw [if_neg hfull]
      rfl
  | some i =>
      obtain ⟨hi, hbefore⟩ := firstIdx_eq_some.mp hf
      have hge : l.length ≤ i.val := by
        by_contra hlt
        rw [get_fill, List.getElem?_eq_getElem (by omega), Option.getD_some,
          hused _ (List.getElem_mem _)] at hi
        exact absurd hi (by decide)
      have hle : i.val ≤ l.length := by
        by_contra hlt
        have hlt' : l.length < i.val := by omega
        have := hbefore ⟨l.length, by omega⟩ hlt'
        rw [get_fill, List.getElem?_eq_none (Nat.le_refl _), Option.getD_none, hzero] at this
        exact absurd this (by decide)
      have hlast : i.val = l.length := by omega
      have hroom : l.length < n := hlast ▸ i.isLt
      rw [if_pos hroom, Option.map_some, hlast]

end SlotTable

/-! ## A registry laid out in a table -/

namespace Registry

variable {α β κ : Type} {key : α → κ} {ok : α → Prop} {cap : Nat}

/-- The table of a registry: what `rep` makes of each entry, and `zero` in the slots left over. -/
def table (zero : β) (rep : α → β) (r : Registry α κ key ok cap) : Vector β cap :=
  fill zero (r.entries.map rep)

theorem table_empty (zero : β) (rep : α → β) :
    (empty : Registry α κ key ok cap).table zero rep = Vector.replicate cap zero :=
  fill_nil zero

theorem get_table (zero : β) (rep : α → β) (r : Registry α κ key ok cap) (i : Fin cap) :
    (r.table zero rep)[i] = ((r.get? i.val).map rep).getD zero := by
  unfold table get?
  rw [get_fill, List.getElem?_map]

theorem lt_of_get? {r : Registry α κ key ok cap} {i : Nat} {x : α} (h : r.get? i = some x) :
    i < cap :=
  (List.getElem?_eq_some_iff.mp h).1.trans_le r.room

theorem ok_of_get? {r : Registry α κ key ok cap} {i : Nat} {x : α} (h : r.get? i = some x) :
    ok x :=
  r.sound x (List.mem_of_getElem? h)

theorem table_modify (zero : β) (rep : α → β) {r : Registry α κ key ok cap} {i : Fin cap} {x : α}
    (h : r.get? i.val = some x) (f : α → α) (hkey : ∀ x, key (f x) = key x)
    (hok : ∀ x, ok x → ok (f x)) :
    (r.table zero rep).put i (rep (f x)) = (r.modify i.val f hkey hok).table zero rep := by
  apply ext_get
  intro j
  rw [get_put, get_table, get_table]
  unfold get? at h ⊢
  unfold modify
  rw [List.getElem?_modify]
  by_cases hij : i = j
  · subst hij
    rw [if_pos rfl, h]
    simp
  · have hval : i.val ≠ j.val := fun he => hij (Fin.ext he)
    rw [if_neg hij]
    simp [hval]

section Scans

variable {used : β → Bool} {zero : β} {rep : α → β}

/-- The free slot the table's scan finds is the one for the next entry. -/
theorem freeIdx_table (hzero : used zero = false) (hused : ∀ x, ok x → used (rep x) = true)
    (r : Registry α κ key ok cap) :
    (firstIdx (fun b => !used b) (r.table zero rep)).map Fin.val
      = if r.entries.length < cap then some r.entries.length else none := by
  unfold table
  rw [freeIdx_fill hzero (fun b hb => ?_) (by rw [List.length_map]; exact r.room),
    List.length_map]
  obtain ⟨x, hx, rfl⟩ := List.mem_map.mp hb
  exact hused x (r.sound x hx)

variable [BEq κ]

/-- What the table's scan for a key finds is what the registry finds. -/
theorem keyIdx_table {slotKey : β → κ} (hzero : used zero = false)
    (hused : ∀ x, ok x → used (rep x) = true) (hkey : ∀ x, slotKey (rep x) = key x)
    (r : Registry α κ key ok cap) (k : κ) :
    (firstIdx (fun b => used b && slotKey b == k) (r.table zero rep)).map Fin.val = r.find? k := by
  unfold table find?
  rw [firstIdx_fill (by rw [hzero, Bool.false_and]) (by rw [List.length_map]; exact r.room),
    List.findIdx?_map]
  have hsame : ∀ x ∈ r.entries, (used (rep x) && slotKey (rep x) == k) = (key x == k) := by
    intro x hx
    rw [hused x (r.sound x hx), Bool.true_and, hkey]
  generalize r.entries = l at hsame
  induction l with
  | nil => rfl
  | cons x l ih =>
      rw [List.findIdx?_cons, List.findIdx?_cons, Function.comp_apply,
        hsame x List.mem_cons_self, ih fun y hy => hsame y (List.mem_cons_of_mem _ hy)]

variable [LawfulBEq κ]

theorem table_add {r : Registry α κ key ok cap} {x : α} (hx : ok x)
    (hnew : r.find? (key x) = none) {i : Fin cap} (hi : i.val = r.entries.length) :
    (r.table zero rep).put i (rep x) = (r.add x hx).table zero rep := by
  unfold table
  rw [add_entries hx hnew (hi ▸ i.isLt), List.map_append, List.map_singleton]
  exact fill_append zero (by rw [List.length_map]; exact hi) (rep x)

end Scans

end Registry
