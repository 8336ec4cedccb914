import IndexedStore.Proofs.CompositeKey
import IndexedStore.Proofs.OrderedMap
import IndexedStore.Proofs.Quiet

set_option autoImplicit false

/-! # The entries records call for

`Index.expected` is what an index table should hold for given records: the entries of all their
values, each with the key of its record. A record is asked for its part of it, and answers unless
one of its values is too long (`Index.entries_eq`). The parts of records with different keys are
disjoint, and a scan of the whole for a value finds the keys of the records that have it
(`Index.keysOf_expected`). -/

namespace IndexedStore.Index

variable {R : Type} [Record R]

/-! ## The expected entries -/

/-- The entries that records call for in an index, however long their values are. -/
def expected (records : List R) (index : String) : OrderedSet Bytes :=
  .setOf (records.flatMap fun record =>
    (Record.indexValues record index).map (CompositeKey.entry · (Record.key record)))

theorem contains_expected (records : List R) (index : String) (e : Bytes) :
    (expected records index).contains e ↔ ∃ record ∈ records,
      ∃ value ∈ Record.indexValues record index,
        CompositeKey.entry value (Record.key record) = e := by
  simp only [expected, OrderedMap.contains_setOf, List.mem_flatMap, List.mem_map]

theorem contains_expected_entry (records : List R) (index : String) (value key : Bytes) :
    (expected records index).contains (CompositeKey.entry value key) ↔
      ∃ record ∈ records, Record.key record = key ∧ value ∈ Record.indexValues record index := by
  rw [contains_expected]
  constructor
  · rintro ⟨record, hrecord, value', hvalue, he⟩
    obtain ⟨rfl, rfl⟩ := CompositeKey.entry_inj he
    exact ⟨record, hrecord, rfl, hvalue⟩
  · rintro ⟨record, hrecord, rfl, hvalue⟩
    exact ⟨record, hrecord, value, hvalue, rfl⟩

theorem expected_nil (index : String) : expected ([] : List R) index = .empty := rfl

theorem contains_expected_append (records more : List R) (index : String) (e : Bytes) :
    (expected (records ++ more) index).contains e ↔
      (expected records index).contains e ∨ (expected more index).contains e := by
  simp only [contains_expected, List.mem_append, or_and_right, exists_or]

theorem contains_expected_cons (record : R) (records : List R) (index : String) (e : Bytes) :
    (expected (record :: records) index).contains e ↔
      (expected [record] index).contains e ∨ (expected records index).contains e :=
  contains_expected_append [record] records index e

/-- No entry of a record is one of records with other keys. -/
theorem not_contains_expected_of_fresh {records : List R} {record : R}
    (hfresh : Record.key record ∉ records.map Record.key) (index : String) (e : Bytes)
    (he : (expected [record] index).contains e = true) :
    ¬ (expected records index).contains e = true := by
  intro hold
  obtain ⟨r, hr, value, -, rfl⟩ := (contains_expected _ _ _).mp he
  obtain rfl := List.mem_singleton.mp hr
  obtain ⟨other, hother, hkey, -⟩ := (contains_expected_entry _ _ _ _).mp hold
  exact hfresh (List.mem_map.mpr ⟨other, hother, hkey⟩)

/-- **Exchanging** what is expected of some of the records for what is expected of others gives what
is expected of the records after the exchange. -/
theorem expected_exchange {records old new records' : List R}
    (hunique : ∀ r ∈ records, ∀ o ∈ old, Record.key r = Record.key o → r = o)
    (hold : ∀ o ∈ old, o ∈ records)
    (hrecords : ∀ r, r ∈ records' ↔
      r ∈ new ∨ (r ∈ records ∧ ∀ o ∈ old, Record.key r ≠ Record.key o)) (index : String) :
    (expected records index).exchange (expected old index) (expected new index)
      = expected records' index := by
  refine OrderedMap.ext_contains fun e => ?_
  rw [OrderedMap.contains_exchange]
  simp only [contains_expected]
  constructor
  · rintro (⟨⟨r, hr, value, hvalue, rfl⟩, -⟩ | ⟨⟨r, hr, value, hvalue, rfl⟩, hkept⟩)
    · exact ⟨r, (hrecords r).mpr (.inl hr), value, hvalue, rfl⟩
    -- An entry that was there before stays if its record does, or if a new one calls for it.
    · by_cases hany : ∃ o ∈ old, Record.key r = Record.key o
      · obtain ⟨o, ho, hkey⟩ := hany
        obtain rfl := hunique r hr o ho hkey
        obtain ⟨r', hr', value', hvalue', he⟩ := hkept ⟨r, ho, value, hvalue, rfl⟩
        exact ⟨r', (hrecords r').mpr (.inl hr'), value', hvalue', he⟩
      · have hother : ∀ o ∈ old, Record.key r ≠ Record.key o := fun o ho hkey => hany ⟨o, ho, hkey⟩
        exact ⟨r, (hrecords r).mpr (.inr ⟨hr, hother⟩), value, hvalue, rfl⟩
  · rintro ⟨r, hr, value, hvalue, rfl⟩
    rcases (hrecords r).mp hr with hnew | ⟨hr, hother⟩
    · by_cases hbefore : ∃ o ∈ old, ∃ value' ∈ Record.indexValues o index,
          CompositeKey.entry value' (Record.key o) = CompositeKey.entry value (Record.key r)
      · obtain ⟨o, ho, value', hvalue', he⟩ := hbefore
        exact .inr ⟨⟨o, hold o ho, value', hvalue', he⟩, fun _ => ⟨r, hnew, value, hvalue, rfl⟩⟩
      · exact .inl ⟨⟨r, hnew, value, hvalue, rfl⟩, hbefore⟩
    -- An entry tells its key, so those of other records are not touched.
    · refine .inr ⟨⟨r, hr, value, hvalue, rfl⟩, ?_⟩
      rintro ⟨o, ho, value', -, he⟩
      exact absurd (CompositeKey.entry_inj he).2.symm (hother o ho)

/-! ## What a record answers -/

/-- The values of a record in the given indices are short enough for entries. -/
def Fits (indices : List String) (record : R) : Prop :=
  ∀ index ∈ indices, ∀ value ∈ Record.indexValues record index, value.length ≤ maxValueLength

instance (indices : List String) (record : R) : Decidable (Fits indices record) :=
  inferInstanceAs (Decidable (∀ index ∈ indices, ∀ value ∈ Record.indexValues record index,
    value.length ≤ maxValueLength))

/-- The first value of a record in an index that is too long. -/
def oversized? (record : R) (index : String) : Option Oversized :=
  ((Record.indexValues record index).find? fun value => maxValueLength < value.length).map
    fun value => ⟨value.length⟩

theorem oversized?_eq_none_iff (record : R) (index : String) :
    oversized? record index = none ↔
      ∀ value ∈ Record.indexValues record index, value.length ≤ maxValueLength := by
  simp only [oversized?, Option.map_eq_none_iff, List.find?_eq_none, decide_eq_true_eq, Nat.not_lt]

theorem mapM_encode (values : List Bytes) (key : Bytes) :
    (values.mapM fun value => CompositeKey.encode value key)
      = match values.find? fun value => maxValueLength < value.length with
        | none => .ok (values.map (CompositeKey.entry · key))
        | some value => .error ⟨value.length⟩ := by
  induction values with
  | nil => rfl
  | cons value rest ih =>
    by_cases h : maxValueLength < value.length
    · rw [List.mapM_cons, CompositeKey.encode_of_lt h, List.find?_cons_of_pos (by simpa using h)]
      rfl
    · rw [List.mapM_cons, CompositeKey.encode_of_le (Nat.not_lt.mp h), ih,
        List.find?_cons_of_neg (by simpa using h)]
      cases rest.find? fun value => maxValueLength < value.length <;> rfl

/-- **A record asked for its entries** answers them all or names its first value that is too
long. -/
theorem entries_eq (record : R) (index : String) :
    entries record index = match oversized? record index with
      | none => .ok (expected [record] index)
      | some value => .error value := by
  rw [entries, mapM_encode, oversized?, expected, List.flatMap_singleton]
  cases (Record.indexValues record index).find? fun value => maxValueLength < value.length <;> rfl

theorem entries_of_fits {indices : List String} {record : R} (h : Fits indices record)
    {index : String} (hindex : index ∈ indices) :
    entries record index = .ok (expected [record] index) := by
  rw [entries_eq, (oversized?_eq_none_iff record index).mpr (h index hindex)]

/-- A record that answers has no value that is too long. -/
theorem short_of_entries {record : R} {index : String} {answer : OrderedSet Bytes}
    (h : entries record index = .ok answer) :
    ∀ value ∈ Record.indexValues record index, value.length ≤ maxValueLength := by
  rw [entries_eq] at h
  split at h
  · next hshort => exact (oversized?_eq_none_iff record index).mp hshort
  · cases h

theorem entriesOf_ok {σ : Type} {c : Context σ} (hc : c.Quiet) {indices : List String}
    {record : R} (h : Fits indices record) {index : String} (hindex : index ∈ indices) :
    Call.entriesOf record index c = .ok (expected [record] index) c := by
  rw [Call.entriesOf_eq hc, Call.lift_ok (entries_of_fits h hindex)]

/-! ## Scans -/

/-- A table shows for a value the keys whose entries it holds, ascending. -/
theorem keysOf_table (table : OrderedSet Bytes) {value : Bytes}
    (h : value.length ≤ maxValueLength) :
    ∃ keys, keysOf table value = .ok keys ∧ keys.Pairwise (fun k l => compare k l = .lt) ∧
      ∀ key, key ∈ keys ↔ table.contains (CompositeKey.entry value key) := by
  refine ⟨_, keysOf_eq_filter table h, ?_, fun key => ?_⟩
  · rw [List.pairwise_map]
    refine List.Pairwise.imp_of_mem ?_ (table.keys_ascending.filter _)
    intro e f he hf hlt
    obtain ⟨k, rfl⟩ := List.isPrefixOf_iff_prefix.mp (List.mem_filter.mp he).2
    obtain ⟨l, rfl⟩ := List.isPrefixOf_iff_prefix.mp (List.mem_filter.mp hf).2
    rwa [List.drop_left, List.drop_left, ← Bytes.compare_append_left]
  · simp only [List.mem_map, List.mem_filter, OrderedMap.mem_keys_iff, List.isPrefixOf_iff_prefix]
    constructor
    · rintro ⟨e, ⟨he, key', rfl⟩, rfl⟩
      rwa [List.drop_left]
    · intro hkey
      exact ⟨_, ⟨hkey, List.prefix_append _ _⟩, List.drop_left⟩

/-- **The keys shown for a value** in a table that holds the expected entries are those of the
records that have the value. -/
theorem keysOf_expected (records : List R) (index : String) {value : Bytes}
    (h : value.length ≤ maxValueLength) {keys : List Bytes}
    (hasc : keys.Pairwise fun k l => compare k l = .lt)
    (hmem : ∀ key, key ∈ keys ↔
      ∃ record ∈ records, Record.key record = key ∧ value ∈ Record.indexValues record index) :
    keysOf (expected records index) value = .ok keys := by
  obtain ⟨shown, hshown, hshownAsc, hshownMem⟩ := keysOf_table (expected records index) h
  rw [hshown, OrderedMap.eq_of_ascending hshownAsc hasc fun key => by
    rw [hshownMem, contains_expected_entry, hmem]]

end IndexedStore.Index
