import Mathlib.Algebra.BigOperators.Group.List.Basic
import Mathlib.Algebra.GroupWithZero.Nat
import IndexedStore.Proofs.Footprint
import IndexedStore.Proofs.Scrub
import IndexedStore.Proofs.Undisturbed

set_option autoImplicit false

/-! # Counting entries

How many entries the tables of some indices hold together is one number of a store
(`Store.entryCount`), and how many entries one store has that another lacks is a number of both
(`Store.surplus`). A change of a store that gains and loses entries moves the first by the difference
of the others (`Store.entryCount_add_surplus`).

The calls count while they edit, and not alike. What is put is counted unseen, and what is taken out is
looked up. So in any store at all a deletion counts just what it takes out (`Store.Sheds`); an
insertion counts what its records call for; and an exchange of entries counts what is gained only where
nothing that is put is there already (`of_refileEntries`). All of this holds in whatever context the
calls succeed. -/

namespace IndexedStore

/-! ## Sizes of sets -/

namespace OrderedMap

variable {κ ν : Type} [Ord κ]

theorem length_keys (m : OrderedMap κ ν) : m.keys.length = m.size := by
  rw [keys, List.length_map, size]

variable [Std.TransOrd κ] [Std.LawfulEqOrd κ]

/-- **What two sets have in common counts in both.** -/
theorem size_add_length_without (s t : OrderedSet κ) :
    t.size + (s.without t).length = s.size + (t.without s).length := by
  have hcommon : s.keys.filter t.contains = t.keys.filter s.contains := by
    refine eq_of_ascending (s.keys_ascending.filter _) (t.keys_ascending.filter _) fun k => ?_
    rw [List.mem_filter, List.mem_filter, mem_keys_iff, mem_keys_iff, and_comm]
  have hs := List.length_eq_length_filter_add (l := s.keys) t.contains
  have ht := List.length_eq_length_filter_add (l := t.keys) s.contains
  rw [length_keys] at hs ht
  rw [hcommon] at hs
  unfold without
  omega

variable [DecidableEq κ]

/-- An exchange that puts nothing that is there gains all that it puts. -/
theorem exchange_without {s before after : OrderedSet κ}
    (hnew : ∀ k ∈ after.without before, ¬ s.contains k = true) :
    (s.exchange before after).without s = after.without before := by
  refine eq_of_ascending (without_ascending _ _) (without_ascending _ _) fun k => ?_
  rw [mem_without_iff, contains_exchange, mem_without_iff]
  constructor
  · rintro ⟨hput | hkept, hnot⟩
    · exact hput
    · exact absurd hkept.1 hnot
  · intro hput
    exact ⟨.inl hput, hnew k ((mem_without_iff _ _ _).mpr hput)⟩

/-- An exchange loses what it takes out and is there. -/
theorem without_exchange (s before after : OrderedSet κ) :
    s.without (s.exchange before after) = (before.without after).filter s.contains := by
  refine eq_of_ascending (without_ascending _ _) ((without_ascending _ _).filter _) fun k => ?_
  rw [mem_without_iff, contains_exchange, List.mem_filter, mem_without_iff]
  by_cases hs : s.contains k = true <;> by_cases hbefore : before.contains k = true <;>
    by_cases hafter : after.contains k = true <;> simp [hs, hbefore, hafter]

/-- Members that are new are gained in a union, and nothing is lost. -/
theorem union_without {s t : OrderedSet κ}
    (hnew : ∀ k, t.contains k = true → ¬ s.contains k = true) :
    (s.union t).without s = t.keys ∧ s.without (s.union t) = [] := by
  have hput : ∀ k ∈ t.without empty, ¬ s.contains k = true := fun k hk =>
    hnew k ((mem_without_iff _ _ _).mp hk).1
  rw [← exchange_empty_left, exchange_without hput, without_exchange, without_empty, empty_without]
  exact ⟨rfl, rfl⟩

theorem size_union {s t : OrderedSet κ} (hnew : ∀ k, t.contains k = true → ¬ s.contains k = true) :
    (s.union t).size = s.size + t.size := by
  have hsize := size_add_length_without s (s.union t)
  obtain ⟨hgained, hlost⟩ := union_without hnew
  rw [hgained, hlost, length_keys] at hsize
  exact hsize

theorem size_minus (s t : OrderedSet κ) :
    (s.minus t).size + (t.keys.filter s.contains).length = s.size := by
  have hput : ∀ k ∈ empty.without t, ¬ s.contains k = true := fun k hk => by cases hk
  have hsize := size_add_length_without s (s.exchange t empty)
  rw [exchange_without hput, without_exchange, exchange_empty_right, without_empty,
    empty_without] at hsize
  exact hsize

theorem keys_erase (m : OrderedMap κ ν) (k : κ) : (m.erase k).keys = m.keys.erase k := by
  refine eq_of_ascending (keys_ascending _) (m.keys_ascending.sublist List.erase_sublist)
    fun j => ?_
  rw [(nodup_of_ascending m.keys_ascending).mem_erase_iff, mem_keys_iff, mem_keys_iff,
    contains_erase]

theorem size_erase (m : OrderedMap κ ν) {k : κ} (h : m.contains k = true) :
    (m.erase k).size + 1 = m.size := by
  rw [← length_keys, ← length_keys, keys_erase,
    List.length_erase_add_one ((mem_keys_iff m k).mpr h)]

end OrderedMap

/-! ## Entries of stores -/

namespace Store

/-- The number of entries in the tables of indices. -/
def entryCount (s : Store) (indices : List String) : Nat :=
  (indices.map fun index => (s.entriesIn index).size).sum

/-- The number of entries in the tables of indices that another store lacks there. -/
def surplus (s s' : Store) (indices : List String) : Nat :=
  (indices.map fun index => ((s.entriesIn index).without (s'.entriesIn index)).length).sum

/-- **What is gained and lost balances.** -/
theorem entryCount_add_surplus (s s' : Store) (indices : List String) :
    s'.entryCount indices + s.surplus s' indices = s.entryCount indices + s'.surplus s indices := by
  unfold entryCount surplus
  rw [← List.sum_map_add, ← List.sum_map_add]
  congr 1
  refine List.map_congr_left fun index _ => ?_
  exact OrderedMap.size_add_length_without _ _

theorem surplus_eq_zero {s s' : Store} {indices : List String}
    (h : ∀ index ∈ indices, (s.entriesIn index).without (s'.entriesIn index) = []) :
    s.surplus s' indices = 0 := by
  refine List.sum_eq_zero fun n hn => ?_
  obtain ⟨index, hindex, rfl⟩ := List.mem_map.mp hn
  rw [h index hindex, List.length_nil]

theorem surplus_congr {s s' t t' : Store} {indices : List String}
    (h : ∀ index ∈ indices, s.entriesIn index = t.entriesIn index)
    (h' : ∀ index ∈ indices, s'.entriesIn index = t'.entriesIn index) :
    s.surplus s' indices = t.surplus t' indices := by
  unfold surplus
  congr 1
  refine List.map_congr_left fun index hindex => ?_
  rw [h index hindex, h' index hindex]

/-- Where one of the tables has changed, the number of entries has changed by what that table has. -/
theorem entryCount_of_others {s s' : Store} {indices : List String} (hdistinct : indices.Nodup)
    {index : String} (hindex : index ∈ indices)
    (hothers : ∀ other ∈ indices, other ≠ index → s'.entriesIn other = s.entriesIn other) :
    s'.entryCount indices + (s.entriesIn index).size
      = s.entryCount indices + (s'.entriesIn index).size := by
  have hrest : (indices.erase index).map (fun other => (s'.entriesIn other).size)
      = (indices.erase index).map fun other => (s.entriesIn other).size := by
    refine List.map_congr_left fun other hother => ?_
    obtain ⟨hne, hmem⟩ := hdistinct.mem_erase_iff.mp hother
    rw [hothers other hmem hne]
  unfold entryCount
  rw [← List.sum_map_erase (fun other => (s'.entriesIn other).size) hindex,
    ← List.sum_map_erase (fun other => (s.entriesIn other).size) hindex, hrest]
  omega

/-! ## Edits -/

theorem hasEntry_eq (s : Store) (index : String) :
    s.hasEntry index = (s.entriesIn index).contains := by
  funext entry
  unfold hasEntry entriesIn
  cases s.table? index with
  | none => rfl
  | some t => cases t <;> rfl

theorem entriesIn_put_index (s : Store) (index : String) (entries : OrderedSet Bytes)
    (other : String) : (s.put index (.index entries)).entriesIn other
      = if other = index then entries else s.entriesIn other := by
  unfold entriesIn
  rw [table?_put]
  split_ifs <;> rfl

theorem entriesIn_eraseEntry (s : Store) (index : String) (entry : Bytes) (other : String) :
    (s.eraseEntry index entry).entriesIn other
      = if other = index then (s.entriesIn index).erase entry else s.entriesIn other := by
  by_cases hthere : ∃ entries, s.table? index = some (.index entries)
  · obtain ⟨entries, hentries⟩ := hthere
    rw [eraseEntry_eq hentries, entriesIn_put_index, entriesIn_eq hentries]
  · -- Any other table is left as it is, and has no entries to take out.
    have hleft : s.eraseEntry index entry = s := by
      unfold eraseEntry
      split
      · next entries hentries => exact absurd ⟨entries, hentries⟩ hthere
      · rfl
    have hempty : s.entriesIn index = .empty := by
      unfold entriesIn
      split
      · next entries hentries => exact absurd ⟨entries, hentries⟩ hthere
      · rfl
    rw [hleft]
    split
    · next hother =>
      rw [hother, hempty]
      rfl
    · rfl

/-- Entries are taken out of an index table, and there are none in any other table. -/
theorem entriesIn_eraseEntries (s : Store) (index : String) (entries : List Bytes)
    (other : String) : (s.eraseEntries index entries).entriesIn other
      = if other = index then entries.foldl (fun t e => t.erase e) (s.entriesIn index)
        else s.entriesIn other := by
  induction entries generalizing s with
  | nil =>
    split
    · next hother =>
      rw [hother]
      rfl
    · rfl
  | cons entry rest ih =>
    show ((s.eraseEntry index entry).eraseEntries index rest).entriesIn other = _
    rw [ih, entriesIn_eraseEntry, if_pos rfl, entriesIn_eraseEntry, List.foldl_cons]
    split <;> rfl

end Store

namespace Frame

/-- The frame in which no index table is changed. -/
def keepingEntries : Frame where
  holds s s' := ∀ index, s'.entriesIn index = s.entriesIn index
  refl _ _ := rfl
  trans h h' index := (h' index).trans (h index)

/-- A primary table has no entries, before it is edited and after. -/
theorem keepingEntries_edits (name : String) : keepingEntries.Edits ⟨name, []⟩ where
  opened s hkind index := by
    unfold Store.entriesIn
    by_cases hindex : index = name
    · rw [hindex, Store.table?_opened_primary hkind]
      cases ht : s.table? name with
      | none => rfl
      | some t =>
        have hprimary := hkind t ht
        cases t <;> trivial
    · rw [Store.table?_opened, if_neg hindex]
  rows s rows rows' hrows index := by
    unfold Store.entriesIn
    rw [Store.table?_put]
    split_ifs with hindex
    · rw [hindex, hrows]
    · rfl
  files s index hindex := by cases hindex

/-- The frame in which the rows of a table are not changed. -/
def keepingRows (name : String) : Frame where
  holds s s' := s'.rowsIn name = s.rowsIn name
  refl _ := rfl
  trans h h' := h'.trans h

theorem keepingRows_files (name : String) (indices : List String) :
    (keepingRows name).Files indices := by
  intro s index hindex entries entries' hentries
  show (s.put index _).rowsIn name = s.rowsIn name
  unfold Store.rowsIn
  rw [Store.table?_put]
  split_ifs with hname
  · rw [hname, hentries]
  · rfl

end Frame

/-! ## What a deletion counts -/

namespace Store

/-- Rows and entries have gone from the tables of a bucket, and none has come. -/
structure Sheds (s s' : Store) (config : BucketConfig) (rows entries : Nat) : Prop where
  rows : (s'.rowsIn config.name).size + rows = (s.rowsIn config.name).size
  entries : s'.entryCount config.indices + entries = s.entryCount config.indices
  kept : ∀ index ∈ config.indices, ∀ e, (s'.entriesIn index).contains e = true →
    (s.entriesIn index).contains e = true

variable {s s₁ s' : Store} {config : BucketConfig} {rows entries : Nat}

theorem Sheds.refl (s : Store) (config : BucketConfig) : s.Sheds s config 0 0 :=
  ⟨rfl, rfl, fun _ _ _ he => he⟩

theorem Sheds.trans {moreRows moreEntries : Nat} (h : s.Sheds s₁ config rows entries)
    (h' : s₁.Sheds s' config moreRows moreEntries) :
    s.Sheds s' config (rows + moreRows) (entries + moreEntries) where
  rows := by rw [← h.rows, ← h'.rows]; omega
  entries := by rw [← h.entries, ← h'.entries]; omega
  kept index hindex e he := h.kept index hindex e (h'.kept index hindex e he)

/-- What has gone is all that is missing. -/
theorem Sheds.surplus_eq (h : s.Sheds s' config rows entries) :
    s'.surplus s config.indices = 0 ∧ s.surplus s' config.indices = entries := by
  have hgained : s'.surplus s config.indices = 0 := by
    refine surplus_eq_zero fun index hindex => ?_
    rw [OrderedMap.without, List.filter_eq_nil_iff]
    intro e he
    have hold := h.kept index hindex e ((OrderedMap.mem_keys_iff _ _).mp he)
    simp [hold]
  have hbalance := entryCount_add_surplus s s' config.indices
  have hentries := h.entries
  exact ⟨hgained, by omega⟩

/-- Entries that are taken out of one table shed those that are there. -/
theorem sheds_eraseEntries (hdistinct : config.indices.Nodup) {index : String}
    (hindex : index ∈ config.indices) (s : Store) (entries : OrderedSet Bytes) :
    s.Sheds (s.eraseEntries index entries.keys) config 0
      (entries.keys.filter (s.entriesIn index).contains).length := by
  have hminus : (s.eraseEntries index entries.keys).entriesIn index
      = (s.entriesIn index).minus entries := by
    rw [entriesIn_eraseEntries, if_pos rfl]
    rfl
  have hother : ∀ other, other ≠ index →
      (s.eraseEntries index entries.keys).entriesIn other = s.entriesIn other := by
    intro other hne
    rw [entriesIn_eraseEntries, if_neg hne]
  have hrows : (s.eraseEntries index entries.keys).rowsIn config.name = s.rowsIn config.name :=
    (Frame.keepingRows_files config.name config.indices).eraseEntries hindex s entries.keys
  refine ⟨by rw [hrows, Nat.add_zero], ?_, fun other _ e he => ?_⟩
  · have hcount := entryCount_of_others hdistinct hindex fun other _ hne => hother other hne
    have hsize := OrderedMap.size_minus (s.entriesIn index) entries
    rw [hminus] at hcount
    omega
  · by_cases hsame : other = index
    · rw [hsame, hminus, OrderedMap.contains_minus] at he
      exact hsame ▸ he.1
    · rwa [hother other hsame] at he

/-- A row that is taken out is shed, and no entry with it. -/
theorem sheds_eraseRow {stored : OrderedMap Bytes Bytes}
    (hstored : s.table? config.name = some (.primary stored)) {key : Bytes}
    (hkey : stored.contains key = true) : s.Sheds (s.eraseRow config.name key) config 1 0 := by
  have herased : s.eraseRow config.name key = s.put config.name (.primary (stored.erase key)) := by
    simp only [eraseRow, hstored]
  have hsame : ∀ index, (s.eraseRow config.name key).entriesIn index = s.entriesIn index := by
    rw [herased]
    exact (Frame.keepingEntries_edits config.name).rows s stored _ hstored
  have hrows : (s.eraseRow config.name key).table? config.name
      = some (.primary (stored.erase key)) := by
    rw [herased, table?_put, if_pos rfl]
  refine ⟨?_, ?_, fun index _ e he => hsame index ▸ he⟩
  · rw [rowsIn_eq hrows, rowsIn_eq hstored]
    exact stored.size_erase hkey
  · simp only [entryCount, hsame, Nat.add_zero]

end Store

namespace Call

variable {R σ : Type} [Record R] {c c' : Context σ} {record : R} {index : String}
  {indices : List String} {n : Nat}

/-- A record that was asked has answered with the entries that it calls for. -/
theorem of_entriesOf {entries : OrderedSet Bytes} (h : entriesOf record index c = .ok entries c') :
    entries = Index.expected [record] index ∧ c'.store = c.store := by
  refine ⟨?_, (Reads.stepwise.entriesOf record index).of_ok h⟩
  obtain ⟨⟨⟩, c₁, -, hlift⟩ := of_bind_ok h
  obtain ⟨hanswer, -⟩ := of_lift_ok hlift
  rw [Index.entries_eq] at hanswer
  split at hanswer
  · cases hanswer
    rfl
  · cases hanswer

omit [Record R] in
theorem of_addEntries {entries : List Bytes} (h : addEntries index entries c = .ok n c') :
    c'.store = c.store.putEntries index entries ∧ n = entries.length := by
  cases h
  exact ⟨rfl, rfl⟩

omit [Record R] in
theorem of_removeEntries {entries : List Bytes} (h : removeEntries index entries c = .ok n c') :
    c'.store = c.store.eraseEntries index entries ∧
      n = (entries.filter (c.store.entriesIn index).contains).length := by
  rw [removeEntries, bind_ok (store_run c), Store.hasEntry_eq] at h
  cases h
  exact ⟨rfl, rfl⟩

/-- **A record that is taken out** of some indices sheds the entries that are counted. -/
theorem sheds_of_unfileRecord {config : BucketConfig} (hdistinct : config.indices.Nodup)
    (hsub : ∀ index ∈ indices, index ∈ config.indices)
    (h : unfileRecord record indices c = .ok n c') : c.store.Sheds c'.store config 0 n := by
  induction indices generalizing c n with
  | nil =>
    cases h
    exact .refl _ _
  | cons index rest ih =>
    obtain ⟨hindex, hrest⟩ := List.forall_mem_cons.mp hsub
    obtain ⟨entries, c₁, hasked, h⟩ := of_bind_ok h
    obtain ⟨-, hsame⟩ := of_entriesOf hasked
    obtain ⟨removed, c₂, hremove, h⟩ := of_bind_ok h
    obtain ⟨hstore, rfl⟩ := of_removeEntries hremove
    obtain ⟨more, c₃, hmore, hend⟩ := of_bind_ok h
    cases hend
    have hfirst := Store.sheds_eraseEntries hdistinct hindex c₁.store entries
    rw [← hstore, hsame] at hfirst
    have hall := hfirst.trans (ih hrest hmore)
    rwa [hsame]

end Call

namespace Bucket

open Call

variable {R σ : Type} [Record R] {b : Bucket R} {c c' : Context σ} {counts : Nat × Nat}

/-- Deleting one record sheds what it counts. -/
theorem sheds_of_deleteOne (hdistinct : b.indices.Nodup) {key : Bytes}
    (h : b.deleteOne key c = .ok counts c') :
    c.store.Sheds c'.store b.config counts.1 counts.2 := by
  obtain ⟨⟨⟩, c₁, hlook, hreading⟩ := of_bind_ok h
  rw [← Reads.look.of_ok hlook]
  obtain ⟨stored, c₂, hrows, hfound⟩ := of_bind_ok hreading
  obtain ⟨hstored, rfl⟩ := of_rows hrows
  cases hrow : stored.get? key with
  | none =>
    rw [hrow] at hfound
    cases hfound
    exact .refl _ _
  | some bytes =>
    rw [hrow] at hfound
    have hkey : stored.contains key = true := (OrderedMap.contains_iff _ _).mpr ⟨bytes, hrow⟩
    obtain ⟨⟨⟩, c₃, hedit, hdecoding⟩ := of_bind_ok hfound
    cases hedit
    obtain ⟨record, c₄, hdecode, hremoving⟩ := of_bind_ok hdecoding
    obtain ⟨removed, c₅, hremove, hend⟩ := of_bind_ok hremoving
    cases hend
    have herased := Store.sheds_eraseRow hstored hkey
    have hremoved := sheds_of_unfileRecord hdistinct (fun _ hindex => hindex) hremove
    rw [(Reads.stepwise.decode _ _).of_ok hdecode] at hremoved
    have hall := herased.trans hremoved
    rwa [Nat.add_zero, Nat.zero_add] at hall

/-- **Deleting sheds what it counts**, whatever the tables hold. -/
theorem sheds_of_deleteEach (hdistinct : b.indices.Nodup) {keys : List Bytes}
    (h : b.deleteEach keys c = .ok counts c') :
    c.store.Sheds c'.store b.config counts.1 counts.2 := by
  induction keys generalizing c counts with
  | nil =>
    cases h
    exact .refl _ _
  | cons key rest ih =>
    obtain ⟨first, c₁, hone, h⟩ := of_bind_ok h
    obtain ⟨more, c₂, hmore, hend⟩ := of_bind_ok h
    cases hend
    exact (sheds_of_deleteOne hdistinct hone).trans (ih hmore)

end Bucket

/-! ## What an insertion counts -/

namespace Index

variable {R : Type} [Record R] {records : List R} {record : R}

/-- Of records with different keys none calls for an entry that another one calls for. -/
theorem size_expected_cons (hfresh : Record.key record ∉ records.map Record.key) (index : String) :
    (expected (record :: records) index).size
      = (expected [record] index).size + (expected records index).size := by
  have hunion : expected (record :: records) index
      = (expected records index).union (expected [record] index) := by
    refine OrderedMap.ext_contains fun e => ?_
    rw [OrderedMap.contains_union, contains_expected_cons, or_comm]
  rw [hunion, OrderedMap.size_union (not_contains_expected_of_fresh hfresh index), Nat.add_comm]

theorem sum_size_expected (hdistinct : (records.map Record.key).Nodup) (indices : List String) :
    (records.map fun record =>
        (indices.map fun index => (expected [record] index).size).sum).sum
      = (indices.map fun index => (expected records index).size).sum := by
  induction records with
  | nil =>
    rw [List.map_nil, List.sum_nil]
    refine (List.sum_eq_zero fun n hn => ?_).symm
    obtain ⟨index, -, rfl⟩ := List.mem_map.mp hn
    rfl
  | cons record rest ih =>
    obtain ⟨hfresh, hrest⟩ := List.nodup_cons.mp hdistinct
    rw [List.map_cons, List.sum_cons, ih hrest, ← List.sum_map_add]
    simp only [size_expected_cons hfresh]

end Index

namespace Bucket

open Call

variable {R σ : Type} [Record R] {b : Bucket R} {c c' : Context σ} {record : R} {records : List R}
  {n : Nat}

/-- A record that is filed counts the entries that it calls for. -/
theorem of_fileRecord {indices : List String} (h : fileRecord record indices c = .ok n c') :
    n = (indices.map fun index => (Index.expected [record] index).size).sum := by
  induction indices generalizing c n with
  | nil =>
    cases h
    rfl
  | cons index rest ih =>
    obtain ⟨entries, c₁, hasked, hadding⟩ := of_bind_ok h
    obtain ⟨rfl, -⟩ := of_entriesOf hasked
    obtain ⟨added, c₂, hadd, hfiling⟩ := of_bind_ok hadding
    obtain ⟨more, c₃, hmore, hend⟩ := of_bind_ok hfiling
    obtain ⟨-, rfl⟩ := of_addEntries hadd
    cases hend
    rw [ih hmore, OrderedMap.length_keys, List.map_cons, List.sum_cons]

theorem of_insertOne (h : b.insertOne record c = .ok n c') :
    n = (b.indices.map fun index => (Index.expected [record] index).size).sum := by
  obtain ⟨⟨⟩, c₁, -, hguarded⟩ := of_bind_ok h
  obtain ⟨-, hreading⟩ := of_guarded hguarded
  obtain ⟨stored, c₂, -, hguarded⟩ := of_bind_ok hreading
  obtain ⟨-, hencoding⟩ := of_guarded hguarded
  obtain ⟨bytes, c₃, -, hputting⟩ := of_bind_ok hencoding
  obtain ⟨⟨⟩, c₄, -, hfile⟩ := of_bind_ok hputting
  exact of_fileRecord hfile

theorem of_insertEach (h : b.insertEach records c = .ok n c') :
    n = (records.map fun record =>
      (b.indices.map fun index => (Index.expected [record] index).size).sum).sum := by
  induction records generalizing c n with
  | nil =>
    cases h
    rfl
  | cons record rest ih =>
    obtain ⟨added, c₁, hone, hinserting⟩ := of_bind_ok h
    obtain ⟨more, c₂, hmore, hend⟩ := of_bind_ok hinserting
    cases hend
    rw [of_insertOne hone, ih hmore, List.map_cons, List.sum_cons]

end Bucket

/-! ## What an exchange counts -/

theorem Store.exchangeEntries_eq {s : Store} {index : String} {table : OrderedSet Bytes}
    (h : s.table? index = some (.index table)) (before after : OrderedSet Bytes) :
    (s.eraseEntries index (before.without after)).putEntries index (after.without before)
      = s.put index (.index (table.exchange before after)) := by
  have herased := eraseEntries_eq h (before.without after)
  rw [herased, putEntries_eq (by rw [table?_put, if_pos rfl]), put_put]
  rfl

theorem Store.surplus_cons (s s' : Store) (index : String) (rest : List String) :
    s.surplus s' (index :: rest)
      = ((s.entriesIn index).without (s'.entriesIn index)).length + s.surplus s' rest := by
  unfold surplus
  rw [List.map_cons, List.sum_cons]

namespace Bucket

open Call

variable {σ : Type} {c c' : Context σ} {indices : List String}
  {before after : String → OrderedSet Bytes} {counts : Nat × Nat}

/-- **An exchange of entries** counts those that come and go, where none that is put is there
already. -/
theorem of_refileEntries (hdistinct : indices.Nodup)
    (hthere : ∀ index ∈ indices, ∃ entries, c.store.table? index = some (.index entries))
    (hnew : ∀ index ∈ indices, ∀ e ∈ (after index).without (before index),
      ¬ (c.store.entriesIn index).contains e = true)
    (h : refileEntries indices (indices.map before) (indices.map after) c = .ok counts c') :
    counts.1 = c'.store.surplus c.store indices ∧ counts.2 = c.store.surplus c'.store indices := by
  induction indices generalizing c counts with
  | nil =>
    cases h
    exact ⟨rfl, rfl⟩
  | cons index rest ih =>
    obtain ⟨hfirst, hrest⟩ := List.nodup_cons.mp hdistinct
    obtain ⟨⟨entries, hentries⟩, hthereRest⟩ := List.forall_mem_cons.mp hthere
    obtain ⟨hnewFirst, hnewRest⟩ := List.forall_mem_cons.mp hnew
    obtain ⟨removed, c₁, hremove, hadding⟩ := of_bind_ok h
    obtain ⟨hstore, rfl⟩ := of_removeEntries hremove
    obtain ⟨added, c₂, hadd, hrefiling⟩ := of_bind_ok hadding
    obtain ⟨more, c₃, hmore, hend⟩ := of_bind_ok hrefiling
    obtain ⟨hstore', rfl⟩ := of_addEntries hadd
    cases hend
    rw [hstore, Store.exchangeEntries_eq hentries] at hstore'
    have hother : ∀ other ∈ rest, c₂.store.table? other = c.store.table? other := by
      intro other hmem
      have hne : other ≠ index := fun hsame => hfirst (hsame ▸ hmem)
      rw [hstore', Store.table?_put, if_neg hne]
    have hothers : ∀ other ∈ rest, c₂.store.entriesIn other = c.store.entriesIn other :=
      fun other hmem => Store.entriesIn_congr (hother other hmem)
    -- The table of the first index is exchanged at once, and the others leave it so.
    have htable : c'.store.entriesIn index
        = (c.store.entriesIn index).exchange (before index) (after index) := by
      have hfiles : (Frame.leaving (· = index)).Files rest :=
        Frame.leaving_files fun other hmem hsame => hfirst (hsame ▸ hmem)
      have hleft : c'.store.table? index = c₂.store.table? index :=
        Within.stepwise.refileEntries hfiles (fun _ hmem => hmem) _ _ _ _ _ hmore index rfl
      rw [Store.entriesIn_congr hleft, hstore', Store.entriesIn_put_index, if_pos rfl,
        Store.entriesIn_eq hentries]
    obtain ⟨hadded, hremoved⟩ := ih hrest
      (fun other hmem => hother other hmem ▸ hthereRest other hmem)
      (fun other hmem => hothers other hmem ▸ hnewRest other hmem) hmore
    rw [Store.surplus_cons, Store.surplus_cons, htable, OrderedMap.exchange_without hnewFirst,
      OrderedMap.without_exchange, ← Store.surplus_congr (fun _ _ => rfl) hothers,
      ← Store.surplus_congr hothers fun _ _ => rfl, ← hadded, ← hremoved]
    exact ⟨rfl, rfl⟩

end Bucket

end IndexedStore
