set_option autoImplicit false

/-! # Ordered maps

A finite map kept as the list of its rows in strictly ascending key order. Tables, the family of
tables in a store and the fields of a record are all such maps, so what a map shows when it is
walked (`toList`) is determined by what it answers when it is asked (`get?`): two maps with the same
answers are the same map (`OrderedMap.ext_get?`).

`insert` is a single pass that replaces the row of an equal key; `erase` drops it. Both agree with
`get?` at every key (`get?_insert`, `get?_erase`), and the ascending order is part of the type. -/

namespace IndexedStore

variable {κ ν : Type} [Ord κ]

/-- A map from `κ` to `ν` as its rows in strictly ascending key order. -/
structure OrderedMap (κ ν : Type) [Ord κ] where
  /-- The rows, one per key. -/
  toList : List (κ × ν)
  /-- The keys ascend strictly. -/
  ascending : toList.Pairwise fun a b => compare a.1 b.1 = .lt

/-- A set is a map without values. -/
abbrev OrderedSet (κ : Type) [Ord κ] := OrderedMap κ Unit

namespace OrderedMap

/-! ## Rows -/

/-- The value in the first row of key `k`. -/
def lookupRow (k : κ) : List (κ × ν) → Option ν
  | [] => none
  | row :: rest => if compare k row.1 = .eq then some row.2 else lookupRow k rest

/-- Put a row in its place, instead of a row of the same key if there is one. -/
def insertRow (k : κ) (v : ν) : List (κ × ν) → List (κ × ν)
  | [] => [(k, v)]
  | row :: rest =>
    match compare k row.1 with
    | .lt => (k, v) :: row :: rest
    | .eq => (k, v) :: rest
    | .gt => row :: insertRow k v rest

/-- Drop the rows of key `k`. -/
def eraseRow (k : κ) (rows : List (κ × ν)) : List (κ × ν) :=
  rows.filter fun row => compare k row.1 != .eq

theorem mem_insertRow {k : κ} {v : ν} {row : κ × ν} {rows : List (κ × ν)}
    (h : row ∈ insertRow k v rows) : row = (k, v) ∨ row ∈ rows := by
  induction rows with
  | nil => simpa [insertRow] using h
  | cons head rest ih =>
    simp only [insertRow] at h
    split at h <;> grind

variable [Std.TransOrd κ]

theorem insertRow_ascending (k : κ) (v : ν) {rows : List (κ × ν)}
    (h : rows.Pairwise fun a b => compare a.1 b.1 = .lt) :
    (insertRow k v rows).Pairwise fun a b => compare a.1 b.1 = .lt := by
  induction rows with
  | nil => simp [insertRow]
  | cons head rest ih =>
    obtain ⟨hhead, hrest⟩ := List.pairwise_cons.mp h
    simp only [insertRow]
    split
    next hlt =>
      refine List.pairwise_cons.mpr ⟨fun row hrow => ?_, h⟩
      rcases List.mem_cons.mp hrow with rfl | hrow
      · exact hlt
      · exact Std.TransCmp.lt_trans hlt (hhead row hrow)
    next heq =>
      exact List.pairwise_cons.mpr
        ⟨fun row hrow => Std.TransCmp.lt_of_eq_of_lt heq (hhead row hrow), hrest⟩
    next hgt =>
      refine List.pairwise_cons.mpr ⟨fun row hrow => ?_, ih hrest⟩
      rcases mem_insertRow hrow with rfl | hrow
      · exact Std.OrientedCmp.lt_of_gt hgt
      · exact hhead row hrow

/-! ## Operations -/

/-- The map without rows. -/
def empty : OrderedMap κ ν := ⟨[], .nil⟩

instance : EmptyCollection (OrderedMap κ ν) := ⟨empty⟩

instance : Inhabited (OrderedMap κ ν) := ⟨empty⟩

/-- The value of a key. -/
def get? (m : OrderedMap κ ν) (k : κ) : Option ν :=
  lookupRow k m.toList

/-- Whether a key has a row. -/
def contains (m : OrderedMap κ ν) (k : κ) : Bool :=
  (m.get? k).isSome

/-- The number of rows. -/
def size (m : OrderedMap κ ν) : Nat :=
  m.toList.length

/-- The keys, ascending. -/
def keys (m : OrderedMap κ ν) : List κ :=
  m.toList.map (·.1)

/-- Give a key a value, instead of the one it has. -/
def insert (m : OrderedMap κ ν) (k : κ) (v : ν) : OrderedMap κ ν :=
  ⟨insertRow k v m.toList, insertRow_ascending k v m.ascending⟩

/-- Take a key out. -/
def erase (m : OrderedMap κ ν) (k : κ) : OrderedMap κ ν :=
  ⟨eraseRow k m.toList, m.ascending.filter _⟩

/-- The map of a list of rows; of several rows with one key the last counts. -/
def ofList (rows : List (κ × ν)) : OrderedMap κ ν :=
  rows.foldl (fun m row => m.insert row.1 row.2) empty

/-- The set of the members of a list. -/
def setOf (members : List κ) : OrderedSet κ :=
  members.foldl (fun s k => s.insert k ()) empty

/-- All members of either set. -/
def union (s t : OrderedSet κ) : OrderedSet κ :=
  t.keys.foldl (fun s k => s.insert k ()) s

/-- The members of `s` that are not in `t`, ascending. -/
def without (s t : OrderedSet κ) : List κ :=
  s.keys.filter fun k => !t.contains k

instance [DecidableEq κ] [DecidableEq ν] : DecidableEq (OrderedMap κ ν) := fun m n =>
  decidable_of_iff (m.toList = n.toList)
    ⟨fun h => by cases m; cases n; cases h; rfl, fun h => h ▸ rfl⟩

/-! ## What a map answers -/

omit [Std.TransOrd κ] in
@[simp] theorem get?_empty (k : κ) : (empty : OrderedMap κ ν).get? k = none := rfl

variable [Std.LawfulEqOrd κ]

omit [Std.TransOrd κ] in
theorem lookupRow_insertRow [DecidableEq κ] (k : κ) (v : ν) (rows : List (κ × ν)) (j : κ) :
    lookupRow j (insertRow k v rows) = if j = k then some v else lookupRow j rows := by
  induction rows with
  | nil => simp [insertRow, lookupRow]
  | cons head rest ih =>
    simp only [insertRow]
    split
    next => simp [lookupRow]
    next heq =>
      obtain rfl : k = head.1 := Std.LawfulEqOrd.eq_of_compare heq
      by_cases h : j = head.1 <;> simp [lookupRow, h]
    next hgt =>
      have hne : head.1 ≠ k := by
        rintro rfl
        simp at hgt
      by_cases h : j = head.1
      · subst h
        simp [lookupRow, hne]
      · simp [lookupRow, h, ih]

omit [Std.TransOrd κ] in
theorem lookupRow_eraseRow [DecidableEq κ] (k : κ) (rows : List (κ × ν)) (j : κ) :
    lookupRow j (eraseRow k rows) = if j = k then none else lookupRow j rows := by
  induction rows with
  | nil => simp [eraseRow, lookupRow]
  | cons head rest ih =>
    simp only [eraseRow] at ih ⊢
    by_cases hk : k = head.1
    · by_cases hj : j = head.1 <;> simp_all [lookupRow]
    · have hk' : head.1 ≠ k := fun e => hk e.symm
      by_cases hj : j = head.1 <;> simp_all [lookupRow]

/-- **Inserting** changes the answer at its key and nowhere else. -/
theorem get?_insert [DecidableEq κ] (m : OrderedMap κ ν) (k : κ) (v : ν) (j : κ) :
    (m.insert k v).get? j = if j = k then some v else m.get? j :=
  lookupRow_insertRow k v m.toList j

omit [Std.TransOrd κ] in
/-- **Erasing** empties the answer at its key and changes no other. -/
theorem get?_erase [DecidableEq κ] (m : OrderedMap κ ν) (k : κ) (j : κ) :
    (m.erase k).get? j = if j = k then none else m.get? j :=
  lookupRow_eraseRow k m.toList j

omit [Std.TransOrd κ] in
theorem lookupRow_of_mem {rows : List (κ × ν)} {row : κ × ν}
    (h : rows.Pairwise fun a b => compare a.1 b.1 = .lt) (hrow : row ∈ rows) :
    lookupRow row.1 rows = some row.2 := by
  induction rows with
  | nil => simp at hrow
  | cons head rest ih =>
    obtain ⟨hhead, hrest⟩ := List.pairwise_cons.mp h
    rcases List.mem_cons.mp hrow with rfl | hrow
    · simp [lookupRow]
    · have hne : row.1 ≠ head.1 := by
        intro e
        have := hhead row hrow
        simp [e] at this
      simp [lookupRow, hne, ih hrest hrow]

omit [Std.TransOrd κ] in
theorem mem_of_lookupRow {rows : List (κ × ν)} {k : κ} {v : ν}
    (h : lookupRow k rows = some v) : (k, v) ∈ rows := by
  induction rows with
  | nil => simp [lookupRow] at h
  | cons head rest ih =>
    by_cases hk : k = head.1
    · subst hk
      simp only [lookupRow, Std.ReflOrd.compare_self, ↓reduceIte, Option.some.injEq] at h
      subst h
      simp
    · simp only [lookupRow, Std.compare_eq_iff_eq, hk, ↓reduceIte] at h
      exact List.mem_cons_of_mem _ (ih h)

omit [Std.TransOrd κ] in
/-- **The rows** are exactly the keys that answer, each with its answer. -/
theorem mem_toList_iff (m : OrderedMap κ ν) (k : κ) (v : ν) :
    (k, v) ∈ m.toList ↔ m.get? k = some v :=
  ⟨fun h => @lookupRow_of_mem κ ν _ _ m.toList (k, v) m.ascending h, mem_of_lookupRow⟩

/-- **A map is determined by its answers.** -/
theorem ext_get? {m n : OrderedMap κ ν} (h : ∀ k, m.get? k = n.get? k) : m = n := by
  have hmem : ∀ row, row ∈ m.toList ↔ row ∈ n.toList := by
    rintro ⟨k, v⟩
    rw [mem_toList_iff, mem_toList_iff, h k]
  have hasym : ∀ a b : κ × ν, compare a.1 b.1 = .lt → compare b.1 a.1 = .lt → a = b := by
    intro a b hab hba
    have := Std.OrientedCmp.gt_of_lt hab
    simp [hba] at this
  have nodup : ∀ o : OrderedMap κ ν, o.toList.Nodup := fun o =>
    o.ascending.imp fun {a b} hab e => by simp [e] at hab
  have hperm : m.toList.Perm n.toList :=
    (List.perm_ext_iff_of_nodup (nodup m) (nodup n)).mpr hmem
  have hlist : m.toList = n.toList :=
    hperm.eq_of_pairwise (fun a b _ _ => hasym a b) m.ascending n.ascending
  cases m
  cases n
  cases hlist
  rfl

/-! ## Sets -/

omit [Std.TransOrd κ] in
/-- The keys are those that have a row. -/
theorem mem_keys_iff (m : OrderedMap κ ν) (k : κ) : k ∈ m.keys ↔ m.contains k := by
  simp only [keys, List.mem_map, Prod.exists, exists_and_right, exists_eq_right, contains,
    Option.isSome_iff_exists, mem_toList_iff]

theorem contains_insert [DecidableEq κ] (m : OrderedMap κ ν) (k : κ) (v : ν) (j : κ) :
    (m.insert k v).contains j ↔ j = k ∨ m.contains j := by
  by_cases h : j = k <;> simp [contains, get?_insert, h]

theorem contains_insertAll [DecidableEq κ] (members : List κ) (s : OrderedSet κ) (j : κ) :
    (members.foldl (fun s k => s.insert k ()) s).contains j ↔ j ∈ members ∨ s.contains j := by
  induction members generalizing s with
  | nil => simp
  | cons k rest ih =>
    rw [List.foldl_cons, ih, contains_insert, List.mem_cons, or_left_comm, or_assoc]

/-- The set of a list holds the members of the list. -/
theorem contains_setOf [DecidableEq κ] (members : List κ) (j : κ) :
    (setOf members).contains j ↔ j ∈ members := by
  rw [setOf, contains_insertAll]
  simp [contains]

/-- The union holds the members of either set. -/
theorem contains_union [DecidableEq κ] (s t : OrderedSet κ) (j : κ) :
    (s.union t).contains j ↔ s.contains j ∨ t.contains j := by
  rw [union, contains_insertAll, mem_keys_iff, Or.comm]

omit [Std.TransOrd κ] in
/-- The difference holds the members of the first set that the second lacks. -/
theorem mem_without_iff (s t : OrderedSet κ) (j : κ) :
    j ∈ s.without t ↔ s.contains j ∧ ¬ t.contains j := by
  simp [without, List.mem_filter, mem_keys_iff]

end OrderedMap

end IndexedStore
