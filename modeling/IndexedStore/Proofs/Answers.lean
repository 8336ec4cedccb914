import IndexedStore.Bucket.Read
import IndexedStore.Proofs.Keeping

set_option autoImplicit false

/-! # What a bucket answers

A bucket whose tables hold the contents of a map of records answers every question as the map does.
A question to an index is answered by a scan of its table; what the scan finds for a value are the
keys of the records that have the value (`RecordMap.keysWith`), which is where the entries being
just the expected ones is needed. -/

namespace IndexedStore

variable {R σ : Type} [Record R]

namespace RecordMap

/-- The keys of the records that have a value in an index, ascending. -/
def keysWith (m : RecordMap R) (index : String) (value : Bytes) : List Bytes :=
  (m.toList.filter fun row => (Record.indexValues row.2 index).contains value).map (·.1)

theorem keysWith_ascending (m : RecordMap R) (index : String) (value : Bytes) :
    (m.keysWith index value).Pairwise fun k l => compare k l = .lt :=
  List.pairwise_map.mpr (m.ascending.filter _)

theorem mem_keysWith {m : RecordMap R} (hm : m.Keyed) (index : String) (value key : Bytes) :
    key ∈ m.keysWith index value ↔
      ∃ record ∈ m.values, Record.key record = key ∧ value ∈ Record.indexValues record index := by
  simp only [keysWith, List.mem_map, List.mem_filter, List.contains_iff_mem, Prod.exists,
    exists_and_right, exists_eq_right, OrderedMap.mem_toList_iff]
  constructor
  · rintro ⟨record, hrecord, hvalue⟩
    have hkey := hm key record hrecord
    exact ⟨record, (OrderedMap.mem_values_iff m record).mpr ⟨key, hrecord⟩, hkey, hvalue⟩
  · rintro ⟨record, hrecord, rfl, hvalue⟩
    exact ⟨record, hm.mem_values_iff record |>.mp hrecord, hvalue⟩

end RecordMap

namespace Bucket

open Call

variable (b : Bucket R) {c : Context σ} {h : Contents} {m : RecordMap R}

/-! ## Records -/

theorem readEach_ok (hc : c.Quiet) (hreads : b.codec.Recovers m) (hk : h.Keeps b.codec b.indices m)
    (keys : List Bytes) : b.readEach h.rows keys c = .ok (keys.map m.get?) c := by
  induction keys with
  | nil => rfl
  | cons key rest ih =>
    rw [readEach, bind_ok (look_ok hc), hk.get?_rows, List.map_cons]
    cases hstored : m.get? key with
    | none => exact bind_ok ih
    | some record =>
      have hmem : record ∈ m.values := (OrderedMap.mem_values_iff m record).mpr ⟨key, hstored⟩
      have hdecode := decode_ok hc (hreads record hmem)
      exact (bind_ok hdecode).trans (bind_ok ih)

/-- **Reading** answers the records of the keys. -/
theorem read_ok (hc : c.Quiet) (hreads : b.codec.Recovers m) (hs : c.store.Holds b.config h)
    (hk : h.Keeps b.codec b.indices m) (keys : List Bytes) :
    b.read keys c = .ok (keys.map m.get?) c := by
  have hrows : rows b.name c = .ok h.rows c := rows_ok hs.primary
  rw [read, bind_ok (look_ok hc), bind_ok hrows, b.readEach_ok hc hreads hk]

theorem contains_ok (hs : c.store.Holds b.config h) (hk : h.Keeps b.codec b.indices m)
    (key : Bytes) : b.contains key c = .ok (m.contains key) c := by
  have hrows : rows b.name c = .ok h.rows c := rows_ok hs.primary
  rw [contains, bind_ok hrows, hk.contains_rows]
  rfl

theorem size_ok (hs : c.store.Holds b.config h) (hk : h.Keeps b.codec b.indices m) :
    b.size c = .ok m.size c := by
  have hrows : rows b.name c = .ok h.rows c := rows_ok hs.primary
  rw [size, bind_ok hrows, hk.rows, OrderedMap.size_mapValues]
  rfl

omit [Record R] in
theorem decodeEach_ok (hc : c.Quiet) {rows : List (Bytes × R)}
    (hreads : ∀ row ∈ rows, b.codec.decode (b.codec.bytes row.2) = .ok row.2) :
    b.decodeEach (rows.map fun row => (row.1, b.codec.bytes row.2)) c
      = .ok (rows.map (·.2)) c := by
  induction rows with
  | nil => rfl
  | cons row rest ih =>
    rw [List.forall_mem_cons] at hreads
    have hdecode := decode_ok hc hreads.1
    rw [List.map_cons, decodeEach, bind_ok (look_ok hc), bind_ok hdecode, bind_ok (ih hreads.2)]
    rfl

/-- The part of a list from position `offset` on, at most `limit` long. -/
def page {α : Type} (offset : Nat) (limit : Option Nat) (l : List α) : List α :=
  match limit with
  | none => l.drop offset
  | some limit => (l.drop offset).take limit

theorem page_map {α β : Type} (f : α → β) (offset : Nat) (limit : Option Nat) (l : List α) :
    page offset limit (l.map f) = (page offset limit l).map f := by
  cases limit with
  | none => exact List.map_drop.symm
  | some limit => simp only [page, List.map_take, List.map_drop]

/-- **Listing** answers the records of the page, and how many there are altogether. -/
theorem list_ok (hc : c.Quiet) (hreads : b.codec.Recovers m) (hs : c.store.Holds b.config h)
    (hk : h.Keeps b.codec b.indices m) (offset : Nat) (limit : Option Nat) :
    b.list offset limit c = .ok (page offset limit m.values, m.size) c := by
  have hrows : rows b.name c = .ok h.rows c := rows_ok hs.primary
  have hlist : h.rows.toList = m.toList.map fun row => (row.1, b.codec.bytes row.2) := by
    rw [hk.rows]
    rfl
  have hsize : h.rows.size = m.size := by rw [hk.rows, OrderedMap.size_mapValues]
  have hpage : ∀ row ∈ page offset limit m.toList,
      b.codec.decode (b.codec.bytes row.2) = .ok row.2 := by
    intro row hrow
    have hmem : row ∈ m.toList := by
      cases limit with
      | none => exact List.mem_of_mem_drop hrow
      | some limit => exact List.mem_of_mem_drop (List.mem_of_mem_take hrow)
    exact hreads row.2 (List.mem_map_of_mem hmem)
  have hdecode := b.decodeEach_ok hc hpage
  rw [← page_map, ← page_map, ← hlist] at hdecode
  rw [list, bind_ok (look_ok hc), bind_ok hrows, bind_ok (lookEach_ok hc _)]
  cases limit with
  | none => exact (bind_ok hdecode).trans (by rw [hsize]; rfl)
  | some limit => exact (bind_ok hdecode).trans (by rw [hsize]; rfl)

/-! ## Indices -/

/-- The first of some values that is too long to be looked up. -/
def tooLong? (values : List Bytes) : Option Bytes :=
  values.find? fun value => maxValueLength < value.length

/-- What was found so far are the keys of short values. -/
def LookedUp (keys : Bytes → List Bytes) (found : OrderedMap Bytes (List Bytes)) : Prop :=
  ∀ value l, found.get? value = some l → l = keys value ∧ value.length ≤ maxValueLength

section

variable {table : OrderedSet Bytes} {keys : Bytes → List Bytes}
  {found : OrderedMap Bytes (List Bytes)}

theorem lookupEach_long (hc : c.Quiet) (hfound : LookedUp keys found) {value : Bytes}
    (hlong : maxValueLength < value.length) (rest : List Bytes) :
    lookupEach table found (value :: rest) c
      = .error (.failed (.oversized ⟨value.length⟩)) c := by
  have hnew : ¬ found.contains value = true := by
    intro hcontains
    obtain ⟨l, hl⟩ := (OrderedMap.contains_iff found value).mp hcontains
    exact absurd (hfound value l hl).2 (Nat.not_le.mpr hlong)
  have hkeysOf : Index.keysOf table value = .error ⟨value.length⟩ := by
    rw [Index.keysOf, CompositeKey.stem_of_lt hlong]
    rfl
  rw [lookupEach, bind_ok (look_ok hc), if_neg hnew, bind_error (lift_error hkeysOf c)]

/-- Whether a short value was looked up before or not, it has its keys from here on. -/
theorem lookupEach_short (hc : c.Quiet) (hfound : LookedUp keys found) {value : Bytes}
    (hshort : value.length ≤ maxValueLength) (hkeys : Index.keysOf table value = .ok (keys value))
    (rest : List Bytes) :
    ∃ after, lookupEach table found (value :: rest) c = lookupEach table after rest c ∧
      (∀ v, after.get? v = if v = value then some (keys value) else found.get? v) ∧
      LookedUp keys after := by
  have hrun : ∃ after, lookupEach table found (value :: rest) c = lookupEach table after rest c ∧
      ∀ v, after.get? v = if v = value then some (keys value) else found.get? v := by
    rw [lookupEach, bind_ok (look_ok hc)]
    by_cases hcontains : found.contains value = true
    · obtain ⟨l, hl⟩ := (OrderedMap.contains_iff found value).mp hcontains
      refine ⟨found, by rw [if_pos hcontains], fun v => ?_⟩
      split
      · next he => rw [he, hl, (hfound value l hl).1]
      · rfl
    · refine ⟨found.insert value (keys value), ?_, OrderedMap.get?_insert _ _ _⟩
      rw [if_neg hcontains, bind_ok (lift_ok hkeys c)]
  obtain ⟨after, hafter, hget⟩ := hrun
  refine ⟨after, hafter, hget, ?_⟩
  intro v l hl
  rw [hget] at hl
  split at hl
  · next he =>
    cases hl
    exact ⟨by rw [he], he ▸ hshort⟩
  · exact hfound v l hl

/-- Looking up values one after the other gives each its keys, up to one that is too long. -/
theorem lookupEach_eq (hc : c.Quiet)
    (hkeys : ∀ value, value.length ≤ maxValueLength → Index.keysOf table value = .ok (keys value))
    (values : List Bytes) (hfound : LookedUp keys found) :
    match tooLong? values with
    | some value =>
      lookupEach table found values c = .error (.failed (.oversized ⟨value.length⟩)) c
    | none => ∃ after, lookupEach table found values c = .ok after c ∧
        ∀ value, after.get? value =
          if value ∈ values then some (keys value) else found.get? value := by
  induction values generalizing found with
  | nil => exact ⟨found, rfl, fun value => rfl⟩
  | cons value rest ih =>
    by_cases hlong : maxValueLength < value.length
    · have hfirst : tooLong? (value :: rest) = some value := by
        rw [tooLong?, List.find?_cons, decide_eq_true hlong]
      rw [hfirst]
      exact lookupEach_long hc hfound hlong rest
    · have hshort := Nat.not_lt.mp hlong
      have hlater : tooLong? (value :: rest) = tooLong? rest := by
        rw [tooLong?, List.find?_cons, decide_eq_false hlong]
        rfl
      obtain ⟨between, hrun, hbetween, hfound'⟩ :=
        lookupEach_short hc hfound hshort (hkeys value hshort) rest
      have hrest := ih hfound'
      rw [hlater, hrun]
      cases hlongRest : tooLong? rest with
      | some long =>
        rw [hlongRest] at hrest
        exact hrest
      | none =>
        rw [hlongRest] at hrest
        obtain ⟨after, hafter, hget⟩ := hrest
        refine ⟨after, hafter, fun v => ?_⟩
        rw [hget, hbetween]
        by_cases hv : v = value <;> by_cases hmem : v ∈ rest <;> simp [hv, hmem]

end

theorem indexTable_ok {index : String} {entries : OrderedSet Bytes}
    (h : c.store.table? index = some (.index entries)) : indexTable index c = .ok entries c := by
  have hread : c.store.readIndex index = .ok entries := by simp only [Store.readIndex, h]
  rw [indexTable, bind_ok (store_run c), hread]
  rfl

/-- **Reading an index** answers each of the values with the keys of the records that have it, if
the index is active and no value is too long. -/
theorem readIndex_eq (hc : c.Quiet) (hs : c.store.Holds b.config h)
    (hk : h.Keeps b.codec b.indices m) (index : String) (values : List Bytes) :
    if index ∈ b.indices then
      match tooLong? values with
      | some value =>
        b.readIndex index values c = .error (.failed (.oversized ⟨value.length⟩)) c
      | none => ∃ found, b.readIndex index values c = .ok found c ∧
          ∀ value, found.get? value =
            if value ∈ values then some (m.keysWith index value) else none
    else b.readIndex index values c = .error (.failed (.unknownIndex index b.name)) c := by
  by_cases hindex : index ∈ b.indices
  · rw [if_pos hindex]
    have hactive : ¬ (!b.indices.contains index) = true := by simp [hindex]
    have htable := indexTable_ok (hs.index index hindex)
    rw [hk.entries index hindex] at htable
    have hrun : b.readIndex index values c
        = lookupEach (Index.expected m.values index) .empty values c := by
      rw [readIndex, if_neg hactive]
      exact (bind_ok (look_ok hc)).trans (bind_ok htable)
    rw [hrun]
    refine lookupEach_eq hc (fun value hvalue => ?_) values fun value l hl => (by cases hl)
    exact Index.keysOf_expected m.values index hvalue (m.keysWith_ascending index value)
      (RecordMap.mem_keysWith hk.keyed index value)
  · have hunknown : (!b.indices.contains index) = true := by simp [hindex]
    rw [if_neg hindex, readIndex, if_pos hunknown]
    rfl

end Bucket

end IndexedStore
