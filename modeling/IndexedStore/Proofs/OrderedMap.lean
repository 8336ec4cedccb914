import IndexedStore.OrderedMap

set_option autoImplicit false

/-! # More on ordered maps

The values of a map may be replaced one by one (`mapValues`), which commutes with inserting and
erasing. Several keys at once are put into a set or taken out of it by folding, and what is left is
again said by membership. Lists in strictly ascending order are determined by their members
(`eq_of_ascending`), and so are sets (`ext_contains`). -/

namespace IndexedStore.OrderedMap

variable {κ ν μ : Type} [Ord κ]

/-! ## Order -/

theorem keys_ascending (m : OrderedMap κ ν) : m.keys.Pairwise fun k l => compare k l = .lt :=
  List.pairwise_map.mpr m.ascending

theorem without_ascending (s t : OrderedSet κ) :
    (s.without t).Pairwise fun k l => compare k l = .lt :=
  s.keys_ascending.filter _

theorem without_empty (s : OrderedSet κ) : s.without empty = s.keys := by
  rw [without, List.filter_eq_self]
  intro k _
  simp [contains]

theorem empty_without (s : OrderedSet κ) : empty.without s = [] := rfl

/-! ## Other values under the same keys -/

theorem lookupRow_map (f : ν → μ) (k : κ) (rows : List (κ × ν)) :
    lookupRow k (rows.map fun row => (row.1, f row.2)) = (lookupRow k rows).map f := by
  induction rows with
  | nil => rfl
  | cons row rest ih =>
    rw [List.map_cons, lookupRow, lookupRow, ih]
    split <;> rfl

/-- The map with each value replaced by what a function makes of it. -/
def mapValues (f : ν → μ) (m : OrderedMap κ ν) : OrderedMap κ μ :=
  ⟨m.toList.map fun row => (row.1, f row.2), List.pairwise_map.mpr m.ascending⟩

theorem get?_mapValues (f : ν → μ) (m : OrderedMap κ ν) (k : κ) :
    (m.mapValues f).get? k = (m.get? k).map f :=
  lookupRow_map f k m.toList

theorem contains_mapValues (f : ν → μ) (m : OrderedMap κ ν) (k : κ) :
    (m.mapValues f).contains k = m.contains k := by
  rw [contains, contains, get?_mapValues, Option.isSome_map]

theorem size_mapValues (f : ν → μ) (m : OrderedMap κ ν) : (m.mapValues f).size = m.size := by
  rw [size, size, mapValues, List.length_map]

/-- The values, in the order of their keys. -/
def values (m : OrderedMap κ ν) : List ν :=
  m.toList.map (·.2)

/-! ## Members -/

theorem contains_iff (m : OrderedMap κ ν) (k : κ) :
    m.contains k = true ↔ ∃ v, m.get? k = some v := by
  rw [contains, Option.isSome_iff_exists]

theorem not_contains_empty (k : κ) : ¬ (empty : OrderedSet κ).contains k = true := by
  simp [contains]

variable [Std.LawfulEqOrd κ]

theorem mem_values_iff (m : OrderedMap κ ν) (v : ν) :
    v ∈ m.values ↔ ∃ k, m.get? k = some v := by
  simp only [values, List.mem_map, Prod.exists, exists_eq_right, mem_toList_iff]

theorem contains_erase [DecidableEq κ] (m : OrderedMap κ ν) (k j : κ) :
    (m.erase k).contains j ↔ j ≠ k ∧ m.contains j := by
  by_cases h : j = k <;> simp [contains, get?_erase, h]

/-- Taking out keys one after the other leaves the others. -/
theorem contains_eraseAll [DecidableEq κ] (members : List κ) (s : OrderedSet κ) (j : κ) :
    (members.foldl (fun s k => s.erase k) s).contains j ↔ j ∉ members ∧ s.contains j := by
  induction members generalizing s with
  | nil => simp
  | cons k rest ih =>
    rw [List.foldl_cons, ih, contains_erase, List.mem_cons, not_or]
    constructor
    · rintro ⟨hrest, hk, hs⟩
      exact ⟨⟨hk, hrest⟩, hs⟩
    · rintro ⟨⟨hk, hrest⟩, hs⟩
      exact ⟨hrest, hk, hs⟩

/-- A set with the members of another taken out. -/
def minus (s t : OrderedSet κ) : OrderedSet κ :=
  t.keys.foldl (fun s k => s.erase k) s

theorem contains_minus [DecidableEq κ] (s t : OrderedSet κ) (j : κ) :
    (s.minus t).contains j ↔ s.contains j ∧ ¬ t.contains j := by
  rw [minus, contains_eraseAll, mem_keys_iff, And.comm]

/-! ## Equality -/

theorem nodup_of_ascending {l : List κ} (h : l.Pairwise fun a b => compare a b = .lt) : l.Nodup :=
  h.imp fun {a b} hab e => by simp [e] at hab

variable [Std.TransOrd κ]

/-- A set with what is in `before` alone taken out and what is in `after` alone put in. -/
def exchange (s before after : OrderedSet κ) : OrderedSet κ :=
  (after.without before).foldl (fun s k => s.insert k ())
    ((before.without after).foldl (fun s k => s.erase k) s)

theorem contains_exchange [DecidableEq κ] (s before after : OrderedSet κ) (j : κ) :
    (s.exchange before after).contains j ↔
      (after.contains j ∧ ¬ before.contains j) ∨
        (s.contains j ∧ (before.contains j → after.contains j)) := by
  rw [exchange, contains_insertAll, contains_eraseAll, mem_without_iff, mem_without_iff,
    And.comm (b := s.contains j)]
  simp only [not_and, Decidable.not_not]

/-- **An ascending list is determined by its members.** -/
theorem eq_of_ascending {l l' : List κ} (h : l.Pairwise fun a b => compare a b = .lt)
    (h' : l'.Pairwise fun a b => compare a b = .lt) (hmem : ∀ a, a ∈ l ↔ a ∈ l') : l = l' := by
  have hasym : ∀ a b : κ, a ∈ l → b ∈ l' → compare a b = .lt → compare b a = .lt → a = b := by
    intro a b _ _ hab hba
    have := Std.OrientedCmp.gt_of_lt hab
    simp [hba] at this
  have hperm : l.Perm l' :=
    (List.perm_ext_iff_of_nodup (nodup_of_ascending h) (nodup_of_ascending h')).mpr hmem
  exact hperm.eq_of_pairwise hasym h h'

/-- **A set is determined by its members.** -/
theorem ext_contains {s t : OrderedSet κ} (h : ∀ k, s.contains k ↔ t.contains k) : s = t := by
  refine ext_get? fun k => ?_
  have hk := h k
  simp only [contains] at hk
  cases hs : s.get? k <;> cases ht : t.get? k <;> simp_all

theorem exchange_empty_left [DecidableEq κ] (s t : OrderedSet κ) :
    s.exchange empty t = s.union t := by
  refine ext_contains fun k => ?_
  rw [contains_exchange, contains_union, or_comm]
  simp [not_contains_empty]

theorem exchange_empty_right [DecidableEq κ] (s t : OrderedSet κ) :
    s.exchange t empty = s.minus t := by
  refine ext_contains fun k => ?_
  rw [contains_exchange, contains_minus]
  simp [not_contains_empty]

omit [Std.TransOrd κ] in
theorem without_self (s : OrderedSet κ) : s.without s = [] := by
  rw [without, List.filter_eq_nil_iff]
  intro k hk
  simp [(mem_keys_iff s k).mp hk]

/-- Sets that hold all of each other are the same. -/
theorem eq_of_without_nil {s t : OrderedSet κ} (hst : s.without t = []) (hts : t.without s = []) :
    t = s := by
  have hsub : ∀ {s t : OrderedSet κ}, s.without t = [] → ∀ k, s.contains k → t.contains k := by
    intro s t h k hk
    refine Decidable.byContradiction fun hnot => ?_
    have hmem := (mem_without_iff s t k).mpr ⟨hk, hnot⟩
    rw [h] at hmem
    cases hmem
  exact ext_contains fun k => ⟨hsub hts k, hsub hst k⟩

/-- Rows in ascending order that are put into a map one by one answer before the map does. -/
theorem get?_insertRows [DecidableEq κ] {rows : List (κ × ν)}
    (h : rows.Pairwise fun a b => compare a.1 b.1 = .lt) (m : OrderedMap κ ν) (k : κ) :
    (rows.foldl (fun m row => m.insert row.1 row.2) m).get? k = (lookupRow k rows).or (m.get? k) := by
  induction rows generalizing m with
  | nil => rfl
  | cons row rest ih =>
    obtain ⟨hrow, hrest⟩ := List.pairwise_cons.mp h
    rw [List.foldl_cons, ih hrest, get?_insert, lookupRow]
    by_cases hk : k = row.1
    · -- No later row has the key of the first.
      have hlater : lookupRow k rest = none := by
        cases hfound : lookupRow k rest with
        | none => rfl
        | some v =>
          have hlt := hrow _ (mem_of_lookupRow hfound)
          simp [hk] at hlt
      simp [hk] at hlater ⊢
      simp [hlater]
    · simp [hk]

/-- **A map is the map of its rows.** -/
theorem ofList_toList [DecidableEq κ] (m : OrderedMap κ ν) : ofList m.toList = m := by
  refine ext_get? fun k => ?_
  rw [ofList, get?_insertRows m.ascending, get?_empty, Option.or_none]
  rfl

theorem mapValues_insert [DecidableEq κ] (f : ν → μ) (m : OrderedMap κ ν) (k : κ) (v : ν) :
    (m.insert k v).mapValues f = (m.mapValues f).insert k (f v) := by
  refine ext_get? fun j => ?_
  rw [get?_mapValues, get?_insert, get?_insert, get?_mapValues]
  split <;> rfl

theorem mapValues_erase [DecidableEq κ] (f : ν → μ) (m : OrderedMap κ ν) (k : κ) :
    (m.erase k).mapValues f = (m.mapValues f).erase k := by
  refine ext_get? fun j => ?_
  rw [get?_mapValues, get?_erase, get?_erase, get?_mapValues]
  split <;> rfl

end IndexedStore.OrderedMap
