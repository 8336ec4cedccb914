import IndexedStore.Proofs.Opening
import IndexedStore.Proofs.Scrub

set_option autoImplicit false

/-! # What a reindex repairs

Index tables can be damaged from outside: another program may put entries into them, take entries
out or drop them. The rows are the truth, and a reindex reads nothing else. So what the index tables
held does not matter (`Bucket.reindex_run`): either every row can be filed, and then the tables hold
what the records call for and nothing more, or the call ends with what is wrong with the first row
that cannot, and nothing is changed. -/

namespace IndexedStore

variable {R σ : Type} [Record R]

/-! ## Repaired stores -/

/-- A store is another one with the active indices of a bucket built anew from some records. -/
structure Store.Repaired (s' s : Store) (config : BucketConfig) (records : List R) : Prop where
  /-- The rows are those that were there. -/
  rows : s'.table? config.name = some (.primary (s.rowsIn config.name))
  /-- An active index holds the entries of the records and no others. -/
  index : ∀ index ∈ config.indices, s'.table? index = some (.index (Index.expected records index))
  /-- All other tables are as they were, that of the descriptor among them. -/
  other : ∀ name, name ≠ config.name → name ∉ config.indices → s'.table? name = s.table? name

theorem Store.repaired_place {config : BucketConfig} (hname : config.name ∉ config.indices)
    (s : Store) (records : List R) :
    (s.place config ⟨s.rowsIn config.name, Index.expected records⟩).Repaired s config records where
  rows := (holds_place hname s _).primary
  index := (holds_place hname s _).index
  other name hne hindex := by rw [table?_place, if_neg hne, if_neg hindex]

theorem Store.Repaired.rowsIn_eq {s' s : Store} {config : BucketConfig} {records : List R}
    (h : s'.Repaired s config records) : s'.rowsIn config.name = s.rowsIn config.name :=
  Store.rowsIn_eq h.rows

namespace Bucket

variable (b : Bucket R) {c : Context σ}

/-! ## The calls -/

/-- **Reindexing** ends with what is wrong with the first row that cannot be filed, if there is one,
and otherwise gives the index tables the entries of all records, whatever they held. -/
theorem reindex_run (hc : c.Quiet) (hkind : c.store.OfKind .primary b.name)
    (hd : b.config.Disjoint) :
    match (c.store.rowsIn b.name).toList.findSome? (b.codec.fault? b.indices) with
    | some e => ∃ c', b.reindex c = .error (.failed e) c' ∧ c'.store = c.store
    | none => ∃ records c', b.codec.Legible b.indices (c.store.rowsIn b.name).toList records ∧
        b.reindex c = .ok () c' ∧ c'.Quiet ∧
        c'.store = c.store.place b.config ⟨c.store.rowsIn b.name, Index.expected records⟩ := by
  have hwrites := b.reindex_writes hc hkind hd.primary hd.distinct
  have hdistinct : b.indices.Nodup := hd.distinct
  have heq := Contents.rebuild_eq b.codec hdistinct (c.store.rowsIn b.name)
  cases hfault : (c.store.rowsIn b.name).toList.findSome? (b.codec.fault? b.indices) with
  | some e =>
    rw [hfault] at heq
    rw [heq] at hwrites
    obtain ⟨c', hstop, -, hstore⟩ := hwrites
    exact ⟨c', hstop, hstore⟩
  | none =>
    rw [hfault] at heq
    obtain ⟨records, h, hlegible, hrebuild, hrows, hentries⟩ := heq
    rw [hrebuild] at hwrites
    obtain ⟨c', hrun, hquiet, hstore⟩ := hwrites
    exact ⟨records, c', hlegible, hrun, hquiet, hstore.trans (Store.place_congr hrows hentries)⟩

/-- A scrub of a bucket whose indices are what its records call for finds nothing. -/
theorem verify_consistent_of_index (hc : c.Quiet) {rows : OrderedMap Bytes Bytes}
    (hrows : c.store.table? b.name = some (.primary rows)) {records : List R}
    (hlegible : b.codec.Legible b.indices rows.toList records)
    (hindex : ∀ index ∈ b.indices,
      c.store.table? index = some (.index (Index.expected records index))) :
    ∃ report c', b.verify c = .ok report c' ∧ report.consistent = true := by
  have hkind : ∀ index ∈ b.indices, c.store.OfKind .index index := fun index hmem =>
    Store.ofKind_of_table? (hindex index hmem)
  obtain ⟨report, log, hrun, -, hexact⟩ :=
    b.verify_ok hc hrows hlegible.decode hlegible.fits hkind
  exact ⟨report, _, hrun, (hexact.consistent_iff hkind).mpr hindex⟩

/-- **A reindex repairs any damage of the index tables.** It succeeds just if every row is read as a
record that reports the key of the row and has no value that is too long. Then the indices hold the
entries of these records and nothing else is changed, a scrub finds nothing, and another reindex
changes nothing. Otherwise it ends with what is wrong with the first row that is at fault, in key
order, and changes nothing. -/
theorem reindex_repairs (hvalid : b.config.validate = .ok ()) (hc : c.Quiet)
    (hkinds : c.store.OwnKinds b.config) :
    ((∃ c', b.reindex c = .ok () c') ↔ ∀ row ∈ (c.store.rowsIn b.name).toList, ∃ record,
      b.codec.decode row.2 = .ok record ∧ Record.key record = row.1 ∧
        Index.Fits b.indices record) ∧
    (∀ c', b.reindex c = .ok () c' → ∃ records,
      b.codec.Legible b.indices (c.store.rowsIn b.name).toList records ∧
      c'.store.Repaired c.store b.config records ∧
      (∃ report c'', b.verify c' = .ok report c'' ∧ report.consistent = true) ∧
      ∃ c'', b.reindex c' = .ok () c'' ∧ c''.store = c'.store) ∧
    (∀ stop c', b.reindex c = .error stop c' → c'.store = c.store ∧
      ∃ before row after e, (c.store.rowsIn b.name).toList = before ++ row :: after ∧
        (∀ r ∈ before, b.codec.fault? b.indices r = none) ∧
        b.codec.fault? b.indices row = some e ∧ stop = .failed e) := by
  have hd := b.config.disjoint_of_validate hvalid
  have hrun := b.reindex_run hc hkinds.primary hd
  rw [← forall₂_congr fun row _ => Codec.fault?_eq_none_iff row, ← List.findSome?_eq_none_iff]
  cases hfault : (c.store.rowsIn b.name).toList.findSome? (b.codec.fault? b.indices) with
  | some e =>
    rw [hfault] at hrun
    obtain ⟨c', hstop, hstore⟩ := hrun
    refine ⟨?_, fun c'' hok => ?_, fun stop c'' herror => ?_⟩
    · simp [hstop]
    · rw [hstop] at hok
      cases hok
    · rw [hstop] at herror
      cases herror
      obtain ⟨before, row, after, hlist, hrow, hbefore⟩ := List.findSome?_eq_some_iff.mp hfault
      exact ⟨hstore, before, row, after, e, hlist, hbefore, hrow, rfl⟩
  | none =>
    rw [hfault] at hrun
    obtain ⟨records, c', hlegible, hok, hquiet, hstore⟩ := hrun
    refine ⟨by simp [hok], fun c'' hok' => ?_, fun stop c'' herror => ?_⟩
    · rw [hok] at hok'
      cases hok'
      have hrepaired : c'.store.Repaired c.store b.config records :=
        hstore ▸ Store.repaired_place hd.primary c.store records
      refine ⟨records, hlegible, hrepaired,
        b.verify_consistent_of_index hquiet hrepaired.rows hlegible hrepaired.index, ?_⟩
      -- The rows are the same, so the second call files the same records in the same tables.
      have hagain := b.reindex_run hquiet (Store.ofKind_of_table? hrepaired.rows) hd
      have hrows : c'.store.rowsIn b.name = c.store.rowsIn b.name := hrepaired.rowsIn_eq
      rw [hrows, hfault] at hagain
      obtain ⟨records', c'', hlegible', hrun, -, hstore'⟩ := hagain
      rw [← hlegible.eq hlegible'.decode, hstore, Store.place_place] at hstore'
      exact ⟨c'', hrun, hstore'.trans hstore.symm⟩
    · rw [hok] at herror
      cases herror

/-! ### A word that is filed right again -/

theorem reindex_repairs_misfiled :
    let b : Bucket Word := ⟨⟨"words", ["initial", "letter"]⟩, .words, ⟨none, [], [], 0⟩⟩
    let c : Context Unit := Call.quiet .misfiled [] ()
    b.config.validate = .ok () ∧ c.Quiet ∧ c.store.OwnKinds b.config ∧
      ∃ c', b.reindex c = .ok () c' ∧
        c'.store.Repaired c.store b.config [(⟨[7, 8]⟩ : Word)] := by
  intro b c
  have hrows : c.store.rowsIn b.name = .ofList [([7, 8], [7, 8])] := by decide +kernel
  have hkinds : c.store.OwnKinds b.config := by decide +kernel
  obtain ⟨hsuccess, hrepaired, -⟩ := b.reindex_repairs rfl (Context.quiet_quiet _ _ _) hkinds
  obtain ⟨c', hrun⟩ := hsuccess.mpr fun row hrow => by
    rw [hrows] at hrow
    obtain rfl := List.mem_singleton.mp hrow
    exact ⟨⟨[7, 8]⟩, rfl, rfl, by decide⟩
  obtain ⟨records, hlegible, hstore, -⟩ := hrepaired c' hrun
  refine ⟨rfl, Context.quiet_quiet _ _ _, hkinds, c', hrun, ?_⟩
  have hrecords : records = [⟨[7, 8]⟩] := hlegible.eq (by rw [hrows]; rfl)
  rwa [hrecords] at hstore

end Bucket

end IndexedStore
