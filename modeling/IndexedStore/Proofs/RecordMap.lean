import IndexedStore.Bucket.Write
import IndexedStore.Proofs.OrderedMap

set_option autoImplicit false

/-! # Maps of records

What a bucket is for its users: a map that has each record under the record's own key (`Keyed`).
Such a map is said by its records alone, and so the batches below are: `mem_values_putAll` for
records that are put in, `mem_values_erase` for keys that are taken out.

The keys of a batch may be permuted by a mutator but not changed. That is tested by comparing the
sorted keys place by place, which finds a difference just if there is one
(`firstDifference?_eq_none_iff`). -/

namespace IndexedStore

variable {R : Type} [Record R]

/-- A map from keys to records. -/
abbrev RecordMap (R : Type) := OrderedMap Bytes R

namespace RecordMap

/-- Each record is under its own key. -/
def Keyed (m : RecordMap R) : Prop :=
  ∀ k r, m.get? k = some r → Record.key r = k

/-- The map with a record under its key. -/
def put (m : RecordMap R) (record : R) : RecordMap R :=
  m.insert (Record.key record) record

/-- The map with records under their keys. -/
def putAll (m : RecordMap R) (records : List R) : RecordMap R :=
  records.foldl put m

/-- The map without keys. -/
def eraseAll (m : RecordMap R) (keys : List Bytes) : RecordMap R :=
  keys.foldl (fun m key => m.erase key) m

/-- The map with one more record, if it can come in: its key is not empty and not taken, and the
record is one that `accepts` allows. -/
def insertOne? (accepts : R → Bool) (m : RecordMap R) (record : R) : Option (RecordMap R) :=
  if Record.key record ≠ [] ∧ m.contains (Record.key record) = false ∧ accepts record = true then
    some (m.put record)
  else none

/-- The map with more records, if all of them can come in, and their keys are distinct. -/
def insertAll? (accepts : R → Bool) (m : RecordMap R) (records : List R) : Option (RecordMap R) :=
  if (∀ r ∈ records, Record.key r ≠ [] ∧ m.contains (Record.key r) = false ∧ accepts r = true) ∧
      (records.map Record.key).Nodup then
    some (m.putAll records)
  else none

/-- The records of the keys of given records, if the keys are distinct and all there. -/
def fetch? (m : RecordMap R) (records : List R) : Option (List R) :=
  if (records.map Record.key).Nodup then records.mapM fun record => m.get? (Record.key record)
  else none

/-- The map with mutated records in place of the stored ones, if their keys are the same up to their
order, and all of them are records that `accepts` allows. -/
def replace? (accepts : R → Bool) (m : RecordMap R) (stored mutated : List R) :
    Option (RecordMap R) :=
  if (mutated.map Record.key).Perm (stored.map Record.key) ∧
      ∀ r ∈ mutated, accepts r = true then
    some (m.putAll mutated)
  else none

/-- The map after an update in a context. -/
def update? {σ : Type} (accepts : R → Bool) (m : RecordMap R) (records : List R)
    (mutator : Mutator σ R) (c : Context σ) : Option (RecordMap R) :=
  match m.fetch? records with
  | none => none
  | some stored =>
    match mutator stored.length (.whole stored) c with
    | .error _ _ => none
    | .ok mutated _ => m.replace? accepts stored mutated.val

variable {m : RecordMap R}

theorem Keyed.mem_values_iff (hm : m.Keyed) (r : R) :
    r ∈ m.values ↔ m.get? (Record.key r) = some r := by
  rw [OrderedMap.mem_values_iff]
  constructor
  · rintro ⟨k, hk⟩
    rwa [hm k r hk]
  · intro h
    exact ⟨_, h⟩

theorem Keyed.put (hm : m.Keyed) (record : R) : (m.put record).Keyed := by
  intro k r h
  rw [RecordMap.put, OrderedMap.get?_insert] at h
  split at h
  · next hk =>
    cases h
    exact hk.symm
  · exact hm k r h

theorem Keyed.erase (hm : m.Keyed) (key : Bytes) : RecordMap.Keyed (R := R) (m.erase key) := by
  intro k r h
  rw [OrderedMap.get?_erase] at h
  split at h
  · cases h
  · exact hm k r h

theorem Keyed.putAll (hm : m.Keyed) (records : List R) : (m.putAll records).Keyed := by
  induction records generalizing m with
  | nil => exact hm
  | cons record rest ih => exact ih (hm.put record)

theorem Keyed.keys_values (hm : m.Keyed) : m.values.map Record.key = m.keys := by
  rw [OrderedMap.values, OrderedMap.keys, List.map_map]
  refine List.map_congr_left fun row hrow => ?_
  exact hm row.1 row.2 ((OrderedMap.mem_toList_iff m row.1 row.2).mp hrow)

/-- **A keyed map is determined by its records.** -/
theorem Keyed.ext {m' : RecordMap R} (hm : m.Keyed) (hm' : m'.Keyed)
    (h : ∀ r, r ∈ m.values ↔ r ∈ m'.values) : m = m' := by
  have hsub : ∀ {m m' : RecordMap R}, m.Keyed → m'.Keyed → (∀ r, r ∈ m.values → r ∈ m'.values) →
      ∀ k r, m.get? k = some r → m'.get? k = some r := by
    intro m m' hm hm' h k r hr
    have hmem := h r ((OrderedMap.mem_values_iff m r).mpr ⟨k, hr⟩)
    rw [hm'.mem_values_iff, hm k r hr] at hmem
    exact hmem
  refine OrderedMap.ext_get? fun k => Option.ext fun r => ?_
  exact ⟨hsub hm hm' (fun r => (h r).mp) k r, hsub hm' hm (fun r => (h r).mpr) k r⟩

/-! ## The records after a change -/

theorem mem_values_put (hm : m.Keyed) (record r : R) :
    r ∈ (m.put record).values ↔
      r = record ∨ (r ∈ m.values ∧ Record.key r ≠ Record.key record) := by
  rw [(hm.put record).mem_values_iff, hm.mem_values_iff, put, OrderedMap.get?_insert]
  by_cases hkey : Record.key r = Record.key record
  · rw [if_pos hkey, Option.some.injEq]
    constructor
    · intro he
      exact .inl he.symm
    · rintro (he | ⟨-, hne⟩)
      · exact he.symm
      · exact absurd hkey hne
  · rw [if_neg hkey]
    constructor
    · intro h
      exact .inr ⟨h, hkey⟩
    · rintro (rfl | ⟨h, -⟩)
      · exact absurd rfl hkey
      · exact h

/-- **The records after more are put in** are these, and those before with other keys. -/
theorem mem_values_putAll (hm : m.Keyed) {records : List R}
    (hdistinct : (records.map Record.key).Nodup) (r : R) :
    r ∈ (m.putAll records).values ↔
      r ∈ records ∨ (r ∈ m.values ∧ ∀ o ∈ records, Record.key r ≠ Record.key o) := by
  induction records generalizing m with
  | nil => simp [putAll]
  | cons record rest ih =>
    rw [List.map_cons, List.nodup_cons] at hdistinct
    have hrest := ih (hm.put record) hdistinct.2
    rw [mem_values_put hm] at hrest
    -- The first record is not put over by a later one.
    have hself : ∀ o ∈ rest, Record.key record ≠ Record.key o := fun o ho he =>
      hdistinct.1 (he ▸ List.mem_map_of_mem ho)
    show r ∈ ((m.put record).putAll rest).values ↔ _
    rw [hrest, List.mem_cons, List.forall_mem_cons]
    constructor
    · rintro (hr | ⟨rfl | ⟨hr, hne⟩, hother⟩)
      · exact .inl (.inr hr)
      · exact .inl (.inl rfl)
      · exact .inr ⟨hr, hne, hother⟩
    · rintro ((rfl | hr) | ⟨hr, hne, hother⟩)
      · exact .inr ⟨.inl rfl, hself⟩
      · exact .inl hr
      · exact .inr ⟨.inr ⟨hr, hne⟩, hother⟩

theorem mem_values_erase (hm : m.Keyed) (key : Bytes) (r : R) :
    r ∈ (m.erase key).values ↔ r ∈ m.values ∧ Record.key r ≠ key := by
  rw [(hm.erase key).mem_values_iff, hm.mem_values_iff, OrderedMap.get?_erase]
  by_cases hkey : Record.key r = key
  · simp [hkey]
  · simp [hkey]

/-! ## Inserting -/

theorem contains_put (m : RecordMap R) (record : R) (key : Bytes) :
    (m.put record).contains key = false ↔
      key ≠ Record.key record ∧ m.contains key = false := by
  rw [← Bool.not_eq_true, ← Bool.not_eq_true, put, OrderedMap.contains_insert, not_or]

/-- **Inserting one by one** is inserting all at once. -/
theorem foldlM_insertOne? (accepts : R → Bool) (m : RecordMap R) (records : List R) :
    records.foldlM (insertOne? accepts) m = m.insertAll? accepts records := by
  induction records generalizing m with
  | nil => simp [insertAll?, putAll]
  | cons record rest ih =>
    rw [List.foldlM_cons, insertOne?, insertAll?]
    by_cases hfirst : Record.key record ≠ [] ∧ m.contains (Record.key record) = false ∧
        accepts record = true
    · rw [if_pos hfirst]
      show rest.foldlM (insertOne? accepts) (m.put record) = _
      rw [ih, insertAll?]
      refine ite_congr (propext ?_) (fun _ => rfl) fun _ => rfl
      simp only [contains_put, List.forall_mem_cons, List.map_cons, List.nodup_cons, List.mem_map,
        not_exists, not_and]
      constructor
      · rintro ⟨hrest, hdistinct⟩
        exact ⟨⟨hfirst, fun r hr => ⟨(hrest r hr).1, (hrest r hr).2.1.2, (hrest r hr).2.2⟩⟩,
          fun r hr => (hrest r hr).2.1.1, hdistinct⟩
      · rintro ⟨⟨-, hrest⟩, hother, hdistinct⟩
        exact ⟨fun r hr => ⟨(hrest r hr).1, ⟨hother r hr, (hrest r hr).2.1⟩, (hrest r hr).2.2⟩,
          hdistinct⟩
    · have hall : ¬ ((∀ r ∈ record :: rest, Record.key r ≠ [] ∧ m.contains (Record.key r) = false ∧
          accepts r = true) ∧ ((record :: rest).map Record.key).Nodup) := fun h =>
        hfirst (h.1 record List.mem_cons_self)
      rw [if_neg hfirst, if_neg hall]
      rfl

/-- **Inserting the records of a map** into the empty map gives that map. -/
theorem Keyed.insertAll?_values (hm : m.Keyed) {accepts : R → Bool}
    (hnonempty : ∀ r ∈ m.values, Record.key r ≠ []) (haccepted : ∀ r ∈ m.values, accepts r = true) :
    insertAll? accepts .empty m.values = some m := by
  have hempty : RecordMap.Keyed (.empty : RecordMap R) := fun k r hr => by cases hr
  have hdistinct : (m.values.map Record.key).Nodup := by
    rw [hm.keys_values]
    exact OrderedMap.nodup_of_ascending m.keys_ascending
  have hall : RecordMap.putAll .empty m.values = m := by
    refine Keyed.ext (hempty.putAll m.values) hm fun r => ?_
    rw [mem_values_putAll hempty hdistinct]
    simp [OrderedMap.values, OrderedMap.empty]
  have hadmissible : ∀ r ∈ m.values, Record.key r ≠ [] ∧
      (OrderedMap.empty : RecordMap R).contains (Record.key r) = false ∧ accepts r = true :=
    fun r hr => ⟨hnonempty r hr, rfl, haccepted r hr⟩
  rw [insertAll?, if_pos ⟨hadmissible, hdistinct⟩, hall]

/-! ## Fetching -/

theorem fetch?_eq_some_iff {records stored : List R} :
    m.fetch? records = some stored ↔ (records.map Record.key).Nodup ∧
      records.mapM (fun record => m.get? (Record.key record)) = some stored := by
  rw [fetch?]
  split
  · next h => simp [h]
  · next h => simp [h]

/-- What is fetched of a keyed map has the keys that were asked for. -/
theorem Keyed.keys_of_mapM (hm : m.Keyed) {records stored : List R}
    (h : records.mapM (fun record => m.get? (Record.key record)) = some stored) :
    stored.map Record.key = records.map Record.key ∧ ∀ r ∈ stored, r ∈ m.values := by
  induction records generalizing stored with
  | nil =>
    cases h
    exact ⟨rfl, fun r hr => by cases hr⟩
  | cons record rest ih =>
    rw [List.mapM_cons] at h
    obtain ⟨first, hfirst, h⟩ := Option.bind_eq_some_iff.mp h
    obtain ⟨others, hothers, h⟩ := Option.bind_eq_some_iff.mp h
    cases h
    obtain ⟨hkeys, hmem⟩ := ih hothers
    have hkey : Record.key first = Record.key record := hm _ _ hfirst
    refine ⟨by rw [List.map_cons, List.map_cons, hkeys, hkey], fun r hr => ?_⟩
    rcases List.mem_cons.mp hr with rfl | hr
    · exact (OrderedMap.mem_values_iff _ _).mpr ⟨_, hfirst⟩
    · exact hmem r hr

end RecordMap

/-! ## Sorted keys -/

theorem keyLE_iff (a b : Bytes) : keyLE a b = true ↔ (compare a b).isLE := by
  rw [keyLE]
  cases compare a b <;> simp

theorem keyLE_trans (a b c : Bytes) (hab : keyLE a b = true) (hbc : keyLE b c = true) :
    keyLE a c = true := by
  rw [keyLE_iff] at hab hbc ⊢
  exact Std.TransCmp.isLE_trans hab hbc

theorem keyLE_total (a b : Bytes) : (keyLE a b || keyLE b a) = true := by
  have hswap : compare b a = (compare a b).swap := Std.OrientedCmp.eq_swap
  rw [Bool.or_eq_true, keyLE_iff, keyLE_iff, hswap]
  cases compare a b <;> simp

theorem keyLE_antisymm {a b : Bytes} (hab : keyLE a b = true) (hba : keyLE b a = true) : a = b := by
  rw [keyLE_iff] at hab hba
  exact Std.LawfulEqOrd.eq_of_compare (Std.OrientedCmp.isLE_antisymm hab hba)

theorem firstDifference?_eq_none_iff_eq {l l' : List Bytes} (hlength : l.length = l'.length) :
    firstDifference? l l' = none ↔ l = l' := by
  induction l generalizing l' with
  | nil =>
    obtain rfl := List.length_eq_zero_iff.mp hlength.symm
    simp [firstDifference?]
  | cons k l ih =>
    cases l' with
    | nil => cases hlength
    | cons k' l' =>
      rw [firstDifference?]
      split
      · next he => rw [ih (Nat.succ.inj hlength), he, List.cons.injEq, eq_self, true_and]
      · next hne => simp [hne]

/-- The first difference comes after a common beginning. -/
theorem firstDifference?_eq_some_iff {l l' : List Bytes} {k k' : Bytes} :
    firstDifference? l l' = some (k, k') ↔ k ≠ k' ∧
      ∃ common rest rest', l = common ++ k :: rest ∧ l' = common ++ k' :: rest' := by
  constructor
  · intro hdiffer
    induction l generalizing l' with
    | nil => cases hdiffer
    | cons a l ih =>
      cases l' with
      | nil => cases hdiffer
      | cons a' l' =>
        rw [firstDifference?] at hdiffer
        split at hdiffer
        · next he =>
          obtain ⟨hne, common, rest, rest', rfl, rfl⟩ := ih hdiffer
          exact ⟨hne, a :: common, rest, rest', rfl, he ▸ rfl⟩
        · next hne =>
          cases hdiffer
          exact ⟨hne, [], l, l', rfl, rfl⟩
  · rintro ⟨hne, common, rest, rest', rfl, rfl⟩
    induction common with
    | nil => simp [firstDifference?, hne]
    | cons a common ih => simpa [firstDifference?] using ih

/-- **The sorted keys of two lists of records differ nowhere** just if the keys are the same up to
their order. -/
theorem firstDifference?_eq_none_iff {l l' : List R} (hlength : l.length = l'.length) :
    firstDifference? (sortedKeys l) (sortedKeys l') = none ↔
      (l'.map Record.key).Perm (l.map Record.key) := by
  have hsorted : ∀ l : List R, (sortedKeys l).Pairwise fun a b => keyLE a b = true := fun l =>
    List.pairwise_mergeSort keyLE_trans keyLE_total _
  have hperm : ∀ l : List R, (sortedKeys l).Perm (l.map Record.key) := fun l =>
    List.mergeSort_perm _ _
  rw [firstDifference?_eq_none_iff_eq]
  · constructor
    · intro he
      exact (hperm l').symm.trans (he ▸ hperm l)
    · intro h
      -- Sorted lists of the same members are the same list.
      exact List.Perm.eq_of_pairwise (fun a b _ _ => keyLE_antisymm) (hsorted l) (hsorted l')
        ((hperm l).trans (h.symm.trans (hperm l').symm))
  · simp [sortedKeys, hlength]

end IndexedStore
