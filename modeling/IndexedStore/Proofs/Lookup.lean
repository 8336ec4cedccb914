import IndexedStore.Proofs.Answers
import IndexedStore.Proofs.Canonical
import IndexedStore.Record.Word

set_option autoImplicit false

/-! # What a lookup finds

A lookup scans the table of an index from the stem of a value on and stops at the first entry without
it. The table may hold anything: entries of longer values that begin with the value, and bytes that
are no entries at all. Still the scan misses nothing, and finds nothing else, for it comes to the same
as reading every entry of the table and keeping those of the value (`Index.filed`). Reading is what
leaves the other bytes out, and it takes an entry for its own pair only. So what is found for a list of
values (`Index.Finds`) is said without the scan (`Bucket.readIndex_finds`). -/

namespace IndexedStore

variable {R σ : Type}

/-! ## Reading the whole table -/

namespace Index

/-- The keys of the entries of a value: all entries are read, and those of the value are kept. -/
def filed (table : OrderedSet Bytes) (value : Bytes) : List Bytes :=
  ((table.keys.filterMap CompositeKey.decode?).filter (·.1 = value)).map (·.2)

variable {table : OrderedSet Bytes} {value : Bytes}

theorem mem_filed (key : Bytes) :
    key ∈ filed table value ↔
      ∃ entry, CompositeKey.encode value key = .ok entry ∧ table.contains entry = true := by
  simp only [filed, List.mem_map, List.mem_filter, List.mem_filterMap, OrderedMap.mem_keys_iff,
    decide_eq_true_eq, CompositeKey.encode_eq_ok_iff]
  constructor
  · rintro ⟨⟨_, _⟩, ⟨⟨entry, hentry, hreads⟩, rfl⟩, rfl⟩
    exact ⟨entry, CompositeKey.decode?_eq_some_iff.mp hreads, hentry⟩
  · rintro ⟨entry, hpair, hentry⟩
    exact ⟨(value, key), ⟨⟨entry, hentry, CompositeKey.decode?_eq_some_iff.mpr hpair⟩, rfl⟩, rfl⟩

/-- Entries of one value are in the order of their keys. -/
theorem filed_ascending (table : OrderedSet Bytes) (value : Bytes) :
    (filed table value).Pairwise fun k l => compare k l = .lt := by
  rw [filed, List.pairwise_map, List.pairwise_filter, List.pairwise_filterMap]
  refine table.keys_ascending.imp ?_
  rintro entry later hlt ⟨_, key⟩ hreads ⟨_, key'⟩ hreads' hvalue hvalue'
  obtain rfl := of_decide_eq_true hvalue
  obtain rfl := of_decide_eq_true hvalue'
  obtain ⟨rfl, -⟩ := CompositeKey.decode?_eq_some_iff.mp hreads
  obtain ⟨rfl, -⟩ := CompositeKey.decode?_eq_some_iff.mp hreads'
  rwa [CompositeKey.entry, CompositeKey.entry, Bytes.compare_append_left] at hlt

/-- **A scan with an early stop finds what reading the whole table finds.** -/
theorem keysOf_eq_filed (table : OrderedSet Bytes) (h : value.length ≤ maxValueLength) :
    keysOf table value = .ok (filed table value) := by
  obtain ⟨keys, hkeys, hascending, hmem⟩ := keysOf_table table h
  rw [hkeys, OrderedMap.eq_of_ascending hascending (filed_ascending table value) ?_]
  intro key
  simp only [hmem, mem_filed, CompositeKey.encode_eq_ok_iff, h, and_true, exists_eq_left]

/-! ## Several values -/

/-- What is found for values in a table. -/
structure Finds (table : OrderedSet Bytes) (values : List Bytes)
    (found : OrderedMap Bytes (List Bytes)) : Prop where
  /-- The values looked up, each of them once. -/
  asked : ∀ value, found.contains value = true ↔ value ∈ values
  /-- The keys are those of all entries that are read as entries of the value. -/
  filed : ∀ value keys, found.get? value = some keys → keys = Index.filed table value
  /-- Each key once, in byte order. -/
  ascending : ∀ value keys, found.get? value = some keys →
    keys.Pairwise fun k l => compare k l = .lt
  /-- The keys that make an entry of the table with the value. -/
  entries : ∀ value keys, found.get? value = some keys → ∀ key, key ∈ keys ↔
    ∃ entry, CompositeKey.encode value key = .ok entry ∧ table.contains entry = true
  /-- Bytes that are no entry are not found under any value. -/
  malformed : ∀ bytes, CompositeKey.decode? bytes = none →
    ∀ value keys key, found.get? value = some keys → key ∈ keys →
      CompositeKey.encode value key ≠ .ok bytes

theorem finds_of_get? {values : List Bytes} {found : OrderedMap Bytes (List Bytes)}
    (hget : ∀ value, found.get? value = if value ∈ values then some (filed table value) else none) :
    Finds table values found := by
  have hfiled : ∀ value keys, found.get? value = some keys → keys = filed table value := by
    intro value keys hkeys
    rw [hget] at hkeys
    split at hkeys
    · exact (Option.some.inj hkeys).symm
    · cases hkeys
  refine ⟨fun value => ?_, hfiled, ?_, ?_, ?_⟩
  · rw [OrderedMap.contains, hget]
    split <;> simp [*]
  · intro value keys hkeys
    rw [hfiled value keys hkeys]
    exact filed_ascending table value
  · intro value keys hkeys key
    rw [hfiled value keys hkeys, mem_filed]
  · rintro bytes hnone value keys key - - hentry
    -- What is written for a pair reads as that pair.
    obtain ⟨rfl, hshort⟩ := CompositeKey.encode_eq_ok_iff.mp hentry
    rw [CompositeKey.decode?_entry hshort] at hnone
    cases hnone

end Index

namespace Bucket

open Call

variable (b : Bucket R) {c : Context σ}

theorem tooLong?_of_first {before after : List Bytes} {value : Bytes}
    (hbefore : ∀ v ∈ before, v.length ≤ maxValueLength) (hlong : maxValueLength < value.length) :
    tooLong? (before ++ value :: after) = some value := by
  have hnone : before.find? (fun v => maxValueLength < v.length) = none := by
    simpa [List.find?_eq_none] using hbefore
  simp [tooLong?, List.find?_append, hnone, hlong]

/-- **A lookup finds what reading the whole table finds**, whatever the table holds, for every list of
values that are not too long: the values are those looked up, each with the keys of its entries in
byte order. Otherwise the first value that is too long is named. -/
theorem readIndex_finds (hc : c.Quiet) {index : String} (hindex : index ∈ b.indices)
    {table : OrderedSet Bytes} (htable : c.store.table? index = some (.index table))
    (values : List Bytes) :
    ((∀ value ∈ values, value.length ≤ maxValueLength) →
      ∃ found, b.readIndex index values c = .ok found c ∧ Index.Finds table values found) ∧
    ∀ before value after, values = before ++ value :: after →
      (∀ v ∈ before, v.length ≤ maxValueLength) → maxValueLength < value.length →
        b.readIndex index values c = .error (.failed (.oversized ⟨value.length⟩)) c := by
  have hactive : ¬ (!b.indices.contains index) = true := by simp [hindex]
  have hrun : b.readIndex index values c = lookupEach table .empty values c := by
    rw [readIndex, if_neg hactive]
    exact (bind_ok (look_ok hc)).trans (bind_ok (indexTable_ok htable))
  have hempty : LookedUp (Index.filed table) .empty := by
    intro value keys hkeys
    cases hkeys
  have hall := lookupEach_eq hc (fun _ => Index.keysOf_eq_filed table) values hempty
  rw [hrun]
  constructor
  · intro hshort
    have hnone : tooLong? values = none := by
      simpa [tooLong?, List.find?_eq_none] using hshort
    rw [hnone] at hall
    obtain ⟨found, hfound, hget⟩ := hall
    exact ⟨found, hfound, Index.finds_of_get? hget⟩
  · rintro before value after rfl hbefore hlong
    rw [tooLong?_of_first hbefore hlong] at hall
    exact hall

/-- A lookup among longer values, bytes that end too early and a length that is not written in its
one form. -/
theorem readIndex_finds_among_junk :
    let b : Bucket Word := ⟨⟨"words", ["initial"]⟩, .words, ⟨none, [], [], 0⟩⟩
    let table : OrderedSet Bytes :=
      .setOf [[1, 7, 5], [1, 7, 4], [2, 7, 8, 1], [2, 7], [1, 8, 9], [129, 0, 7, 6], [129]]
    let c : Context Unit := quiet (Store.empty.put "initial" (.index table)) [] ()
    let values : List Bytes := [[8], [7], [6], [8]]
    let long : Bytes := List.replicate (maxValueLength + 1) 7
    c.Quiet ∧ "initial" ∈ b.indices ∧ c.store.table? "initial" = some (.index table) ∧
      (∀ value ∈ values, value.length ≤ maxValueLength) ∧ maxValueLength < long.length ∧
      (∃ found, b.readIndex "initial" values c = .ok found c ∧ Index.Finds table values found ∧
        found.toList = [([6], []), ([7], [[4], [5]]), ([8], [[9]])]) ∧
      b.readIndex "initial" [[7], long, [8]] c = .error (.failed (.oversized ⟨long.length⟩)) c := by
  intro b table c values long
  have hc : c.Quiet := Context.quiet_quiet _ _ _
  have hindex : "initial" ∈ b.indices := List.mem_singleton_self _
  have htable : c.store.table? "initial" = some (.index table) := by
    show (Store.empty.put "initial" (.index table)).table? "initial" = _
    rw [Store.table?_put, if_pos rfl]
  have hshort : ∀ value ∈ values, value.length ≤ maxValueLength := by decide
  have hlong : maxValueLength < long.length := by simp [long]
  obtain ⟨found, hrun, hfinds⟩ := (Bucket.readIndex_finds b hc hindex htable values).1 hshort
  obtain ⟨found', hrun', hrows⟩ := ok_of_check (x := b.readIndex "initial" values) (c := c)
    (fun found => found.toList = [([6], []), ([7], [[4], [5]]), ([8], [[9]])]) (by decide +kernel)
  obtain rfl : found = found' := by
    rw [hrun] at hrun'
    cases hrun'
    rfl
  refine ⟨hc, hindex, htable, hshort, hlong, ⟨found, hrun, hfinds, of_decide_eq_true hrows⟩, ?_⟩
  exact (Bucket.readIndex_finds b hc hindex htable _).2 [[7]] long [[8]] rfl (by decide) hlong

end Bucket

end IndexedStore
