import IndexedStore.Proofs.Compact
import IndexedStore.Proofs.Opening

set_option autoImplicit false

/-! # What opening reports and what it leaves

A bucket that was opened says what was done to its tables (`Reconciliation.Reports`): which indices
the descriptor named before, which were built and which fell out of use, and how many records were
read. The tables are then in line with the configuration (`Store.InLine`). Both are read off the
call backwards, step by step (`Call.of_reconcile`), so they hold of every store on which opening
succeeds, however its tables came about. In tables that are in line nothing is left to be done, and
opening again changes nothing (`Call.openBucket_inLine`). -/

namespace IndexedStore

variable {R σ : Type}

/-! ## The descriptor in its table -/

namespace Store

variable {s : Store} {config : BucketConfig}

/-- The store with the descriptor of the configured indices written. -/
def described (s : Store) (config : BucketConfig) : Store :=
  (s.opened .metadata config.metadataName).putMetadata config.metadataName Descriptor.rowKey
    (Descriptor.ofIndices config.indices).toBytes

/-- The metadata table gets one row, and no other table is touched. -/
theorem table?_described (h : s.OfKind .metadata config.metadataName) (name : String) :
    (s.described config).table? name = if name = config.metadataName
      then some (.metadata ((s.metadataIn config.metadataName).insert Descriptor.rowKey
        (Descriptor.ofIndices config.indices).toBytes))
      else s.table? name := by
  rw [described, putMetadata, table?_opened_metadata h]
  dsimp only
  rw [table?_put, table?_opened]
  split <;> rfl

/-- The tables of a bucket that was opened, where `rebuilt` are the indices that were built. -/
theorem table?_described_place (hmetadata : s.OfKind .metadata config.metadataName)
    {rebuilt : List String} (hown : config.metadataName ∉ rebuilt) (h : Contents) (name : String) :
    (((s.ready config).place ⟨config.name, rebuilt⟩ h).described config).table? name
      = if name = config.metadataName then some (.metadata
          ((s.metadataIn config.metadataName).insert Descriptor.rowKey
            (Descriptor.ofIndices config.indices).toBytes))
        else if name = config.name then some (.primary h.rows)
        else if name ∈ rebuilt then some (.index (h.entries name))
        else s.table? name := by
  have htable : ((s.ready config).place ⟨config.name, rebuilt⟩ h).table? config.metadataName
      = some (.metadata (s.metadataIn config.metadataName)) := by
    rw [table?_place, if_neg config.metadataName_ne, if_neg hown, table?_ready_metadata hmetadata]
  rw [table?_described (ofKind_of_table? htable), metadataIn_eq htable, table?_place]
  by_cases hmeta : name = config.metadataName
  · rw [if_pos hmeta, if_pos hmeta]
  · rw [if_neg hmeta, if_neg hmeta]
    dsimp only
    by_cases hname : name = config.name
    · rw [if_pos hname, if_pos hname]
    · rw [if_neg hname, if_neg hname, table?_ready hname hmeta]

end Store

/-! ## The call, backwards -/

namespace Call

variable [Record R] {c c' : Context σ} {config : BucketConfig} {codec : Codec R}

/-- **Bringing the tables in line**, if it succeeds, has opened both tables, read the descriptor,
built the indices that were to be built, and written the descriptor. -/
theorem of_reconcile {r : Reconciliation} (h : reconcile config codec c = .ok r c') :
    c.store.OfKind .primary config.name ∧ c.store.OfKind .metadata config.metadataName ∧
      ∃ previous log n c₁,
        Descriptor.stored (c.store.metadataIn config.metadataName) = .ok previous ∧
        build config codec (config.unbuilt previous (c.store.ready config).names)
          { c with store := c.store.ready config, log := log } = .ok n c₁ ∧
        c₁.store.OfKind .metadata config.metadataName ∧
        r = ⟨previous.map (·.indices), config.unbuilt previous (c.store.ready config).names,
          config.unconfigured previous, n⟩ ∧
        c' = { c₁ with store := c₁.store.described config } := by
  obtain ⟨⟨⟩, c₁, hopen, hrest⟩ := of_bind_ok h
  obtain ⟨hprimary, rfl⟩ := of_openTable hopen
  obtain ⟨⟨⟩, c₂, hopen, -⟩ := of_bind_ok hrest
  have hmetadata : c.store.OfKind .metadata config.metadataName := fun t ht =>
    (of_openTable hopen).1 t (by
      rw [Store.table?_opened, if_neg config.metadataName_ne]
      exact ht)
  refine ⟨hprimary, hmetadata, ?_⟩
  -- From here on the call works on tables that exist.
  obtain ⟨hopen, hopenMetadata⟩ := openBoth_ready hprimary hmetadata
  rw [reconcile_ready hprimary hmetadata, reconcile, bind_ok hopen, bind_ok hopenMetadata] at h
  obtain ⟨previous, c₃, hdescriptor, h⟩ := of_bind_ok h
  rw [descriptor_eq (Store.table?_ready_metadata hmetadata)] at hdescriptor
  obtain ⟨hprevious, rfl⟩ := of_lift_ok hdescriptor
  rw [bind_ok (store_run _)] at h
  obtain ⟨log, h⟩ : ∃ log, (do
      let recordsScanned ← build config codec (config.unbuilt previous (c.store.ready config).names)
      openTable .metadata config.metadataName
      edit (·.putMetadata config.metadataName Descriptor.rowKey
        (Descriptor.ofIndices config.indices).toBytes)
      return (⟨previous.map (·.indices), config.unbuilt previous (c.store.ready config).names,
        config.unconfigured previous, recordsScanned⟩ : Reconciliation) : Call σ Reconciliation)
      { c with store := c.store.ready config, log := log } = .ok r c' := by
    dsimp only at h
    split at h
    · exact ⟨_, h⟩
    · exact ⟨_, h⟩
  obtain ⟨n, c₄, hbuild, h⟩ := of_bind_ok h
  obtain ⟨⟨⟩, c₅, hopen, h⟩ := of_bind_ok h
  obtain ⟨hkind, rfl⟩ := of_openTable hopen
  cases h
  exact ⟨previous, log, n, c₄, hprevious, hbuild, hkind, rfl, rfl⟩

/-- **Building** indices, if it succeeds, has filed all rows in them; these are read only if there
is an index to be built. -/
theorem of_build (hc : c.Quiet) {rows : OrderedMap Bytes Bytes}
    (hprimary : c.store.table? config.name = some (.primary rows)) {indices : List String}
    (hname : config.name ∉ indices) (hdistinct : indices.Nodup) {n : Nat}
    (h : build config codec indices c = .ok n c') :
    ∃ built, Contents.build codec indices rows = .ok built ∧
      n = (if indices = [] then 0 else rows.size) ∧ c'.Quiet ∧
      c'.store = c.store.place ⟨config.name, indices⟩ built := by
  have hends := build_ends hc hprimary codec indices hname hdistinct
  cases hbuild : Contents.build codec indices rows with
  | error e =>
    rw [hbuild] at hends
    obtain ⟨c₁, hstop, -⟩ := hends
    rw [h] at hstop
    cases hstop
  | ok built =>
    rw [hbuild] at hends
    obtain ⟨n', c₁, hrun, hquiet, hstore⟩ := hends
    rw [h] at hrun
    cases hrun
    refine ⟨built, rfl, ?_, hquiet, hstore⟩
    rw [build] at h
    by_cases hempty : indices = []
    · rw [if_pos (List.isEmpty_iff.mpr hempty)] at h
      cases h
      rw [if_pos hempty]
    · rw [if_neg (mt List.isEmpty_iff.mp hempty)] at h
      obtain ⟨n', c₂, hrebuild, h⟩ := of_bind_ok h
      cases h
      have hrun := @rebuild_run R σ _ c ⟨config.name, indices⟩ hc
        (Store.ofKind_of_table? hprimary) hname hdistinct codec
      rw [Store.rowsIn_eq hprimary] at hrun
      rw [if_neg hempty]
      split at hrun
      · rw [hrebuild] at hrun
        cases hrun
        rfl
      · obtain ⟨s, hstop⟩ := hrun
        rw [hrebuild] at hstop
        cases hstop

/-- **Opening**, if it succeeds, has brought the tables in line, and the handle says how. -/
theorem of_openBucket {b : Bucket R} (h : openBucket config codec c = .ok b c') :
    config.validate = .ok () ∧ b.config = config ∧ b.codec = codec ∧
      ∃ c₁ log, reconcile config codec c = .ok b.reconciliation c₁ ∧
        c' = { c₁ with log := log } := by
  obtain ⟨⟨⟩, c₁, hlift, hrest⟩ := of_bind_ok h
  obtain ⟨hvalid, rfl⟩ := of_lift_ok hlift
  obtain ⟨reconciliation, c₂, hatomic, hend⟩ := of_bind_ok hrest
  cases hend
  exact ⟨hvalid, rfl, rfl, c₂, _, of_atomically_ok hatomic, rfl⟩

end Call

/-! ## The report -/

/-- A reconciliation says of a store, before it was opened, what is true of it. -/
structure Reconciliation.Reports (r : Reconciliation) (s : Store) (config : BucketConfig) :
    Prop where
  /-- The indices before are those of the stored descriptor, if there was one. -/
  previous : ∃ stored, Descriptor.stored (s.metadataIn config.metadataName) = .ok stored ∧
    r.previous = stored.map (·.indices)
  /-- The indices that are built are those, in configuration order, that were not active before or
  had no table. -/
  rebuilt : r.rebuilt = config.indices.filter fun index =>
    index ∉ r.previous.getD [] ∨ s.table? index = none
  /-- The indices that fell out of use are those, in the order of the descriptor, that were active
  before and are not configured. -/
  orphaned : r.orphaned = (r.previous.getD []).filter fun index => index ∉ config.indices
  /-- All rows are read if an index is built, and none otherwise. -/
  recordsScanned : r.recordsScanned =
    if r.rebuilt = [] then 0 else (s.rowsIn config.name).size

/-- Opening the primary and the metadata table makes no index appear. -/
theorem BucketConfig.unbuilt_ready {config : BucketConfig} (hd : config.Disjoint) (s : Store)
    (previous : Option Descriptor) :
    config.unbuilt previous (s.ready config).names = config.indices.filter fun index =>
      index ∉ (previous.map (·.indices)).getD [] ∨ s.table? index = none := by
  refine List.filter_congr fun index hindex => ?_
  have hname : index ≠ config.name := fun he => hd.primary (he ▸ hindex)
  have hmetadata : index ≠ config.metadataName := fun he => hd.metadata (he ▸ hindex)
  have hexists : index ∈ (s.ready config).names ↔ s.table? index ≠ none := by
    rw [Store.mem_names_iff, Store.table?_ready hname hmetadata]
  rw [Bool.eq_iff_iff]
  cases previous with
  | none => simp
  | some descriptor => simp [hexists]

theorem BucketConfig.unconfigured_eq (config : BucketConfig) (previous : Option Descriptor) :
    config.unconfigured previous
      = ((previous.map (·.indices)).getD []).filter fun index => index ∉ config.indices := by
  cases previous with
  | none => rfl
  | some descriptor =>
    refine List.filter_congr fun index _ => ?_
    simp

/-! ## The tables -/

/-- A store is another one with the tables of a bucket brought in line with a configuration, where
`rebuilt` are the indices that were built. -/
structure Store.InLine [Record R] (s' s : Store) (config : BucketConfig) (codec : Codec R)
    (rebuilt : List String) : Prop where
  /-- The rows are those that were there. -/
  rows : s'.table? config.name = some (.primary (s.rowsIn config.name))
  /-- The metadata table has one row more, or another one. -/
  metadata : s'.table? config.metadataName = some (.metadata
    ((s.metadataIn config.metadataName).insert Descriptor.rowKey
      (Descriptor.ofIndices config.indices).toBytes))
  /-- Every active index has a table. -/
  active : ∀ index ∈ config.indices, s'.table? index ≠ none
  /-- An index that was built holds the entries of the stored records and no others. -/
  built : ∀ index ∈ rebuilt, ∃ records : List R,
    codec.Legible rebuilt (s.rowsIn config.name).toList records ∧
      s'.table? index = some (.index (Index.expected records index))
  /-- An active index that was not built has the table it had. -/
  skipped : ∀ index ∈ config.indices, index ∉ rebuilt → s'.table? index = s.table? index
  /-- An index that is not active has the table it had. -/
  inactive : ∀ index entries, index ∉ config.indices →
    s.table? index = some (.index entries) → s'.table? index = some (.index entries)
  /-- Tables of all other names are as they were. -/
  other : ∀ name, name ≠ config.name → name ≠ config.metadataName → name ∉ rebuilt →
    s'.table? name = s.table? name

/-- What is built of rows files all of them, if an index is built at all. -/
theorem Contents.legible_of_build [Record R] {codec : Codec R} {indices : List String}
    (hdistinct : indices.Nodup) {rows : OrderedMap Bytes Bytes} {h : Contents}
    (hbuild : build codec indices rows = .ok h) :
    h.rows = rows ∧ ∀ index ∈ indices, ∃ records, codec.Legible indices rows.toList records ∧
      h.entries index = Index.expected records index := by
  rw [build] at hbuild
  split at hbuild
  · next hempty =>
    cases hbuild
    obtain rfl := List.isEmpty_iff.mp hempty
    exact ⟨rfl, fun index hindex => by cases hindex⟩
  · obtain ⟨records, hlegible, hrows, hentries⟩ := legible_of_rebuild hdistinct hbuild
    exact ⟨hrows, fun index hindex => ⟨records, hlegible, hentries index hindex⟩⟩

/-- A descriptor that is read is the one that was written. -/
theorem Descriptor.stored_eq {rows : OrderedMap String Bytes} {indices : List String}
    (hrow : rows.get? rowKey = some (ofIndices indices).toBytes) {previous : Option Descriptor}
    (h : stored rows = .ok previous) : previous = some (ofIndices indices) := by
  rw [stored, hrow] at h
  dsimp only at h
  cases hread : ofBytes (ofIndices indices).toBytes with
  | error e =>
    rw [hread] at h
    cases h
  | ok descriptor =>
    rw [hread] at h
    cases h
    rw [indices_of_ofBytes hread]

/-- A descriptor that is written is read. -/
theorem Descriptor.stored_insert {config : BucketConfig} (h : config.Sized)
    (rows : OrderedMap String Bytes) :
    stored (rows.insert rowKey (ofIndices config.indices).toBytes)
      = .ok (some (ofIndices config.indices)) := by
  rw [stored, OrderedMap.get?_insert, if_pos rfl]
  dsimp only
  rw [ofBytes_toBytes h]
  rfl

/-- **The descriptor** of tables that are in line is read, and names the configured indices. -/
theorem Store.InLine.descriptor [Record R] {s' s : Store} {config : BucketConfig} {codec : Codec R}
    {rebuilt : List String} (h : s'.InLine s config codec rebuilt) (hsized : config.Sized) :
    Descriptor.stored (s'.metadataIn config.metadataName)
      = .ok (some (Descriptor.ofIndices config.indices)) := by
  rw [metadataIn_eq h.metadata]
  exact Descriptor.stored_insert hsized _

/-- The tables are in line if the indices that are skipped have tables, and all rows are filed in
those that are built. -/
theorem Store.inLine_described_place [Record R] {s : Store} {config : BucketConfig}
    (hprimary : s.OfKind .primary config.name) (hmetadata : s.OfKind .metadata config.metadataName)
    (hd : config.Disjoint) {codec : Codec R} {rebuilt : List String}
    (hsub : ∀ index ∈ rebuilt, index ∈ config.indices)
    (hskip : ∀ index ∈ config.indices, index ∉ rebuilt → s.table? index ≠ none) {h : Contents}
    (hrows : h.rows = s.rowsIn config.name)
    (hentries : ∀ index ∈ rebuilt, ∃ records : List R,
      codec.Legible rebuilt (s.rowsIn config.name).toList records ∧
        h.entries index = Index.expected records index) :
    (((s.ready config).place ⟨config.name, rebuilt⟩ h).described config).InLine s config codec
      rebuilt := by
  have hown : config.metadataName ∉ rebuilt := fun hmem => hd.metadata (hsub _ hmem)
  have htable := table?_described_place hmetadata hown h
  -- An active index has a name of its own.
  have hnames : ∀ index ∈ config.indices, index ≠ config.name ∧ index ≠ config.metadataName :=
    fun index hindex => hd.ne_of_mem hindex
  have hother : ∀ name, name ≠ config.name → name ≠ config.metadataName → name ∉ rebuilt →
      (((s.ready config).place ⟨config.name, rebuilt⟩ h).described config).table? name
        = s.table? name := by
    intro name hname hmeta hbuilt
    rw [htable, if_neg hmeta, if_neg hname, if_neg hbuilt]
  have hbuilt : ∀ index ∈ rebuilt,
      (((s.ready config).place ⟨config.name, rebuilt⟩ h).described config).table? index
        = some (.index (h.entries index)) := by
    intro index hindex
    obtain ⟨hname, hmeta⟩ := hnames index (hsub index hindex)
    rw [htable, if_neg hmeta, if_neg hname, if_pos hindex]
  refine ⟨?_, (htable config.metadataName).trans (if_pos rfl), fun index hindex => ?_,
    fun index hindex => ?_, fun index hindex hnot => ?_,
    fun index entries hindex hindexTable => ?_, hother⟩
  · rw [htable, if_neg config.metadataName_ne.symm, if_pos rfl, hrows]
  · by_cases hmem : index ∈ rebuilt
    · rw [hbuilt index hmem]
      exact Option.some_ne_none _
    · rw [hother index (hnames index hindex).1 (hnames index hindex).2 hmem]
      exact hskip index hindex hmem
  · obtain ⟨records, hlegible, hexpected⟩ := hentries index hindex
    exact ⟨records, hlegible, hexpected ▸ hbuilt index hindex⟩
  · exact hother index (hnames index hindex).1 (hnames index hindex).2 hnot
  · -- An index table is not the primary or the metadata table.
    have hname : index ≠ config.name := fun he => by cases hprimary _ (he ▸ hindexTable)
    have hmeta : index ≠ config.metadataName := fun he => by cases hmetadata _ (he ▸ hindexTable)
    rw [hother index hname hmeta fun hmem => hindex (hsub index hmem), hindexTable]

namespace Call

variable [Record R] {c c' : Context σ} {config : BucketConfig} {codec : Codec R}

/-- **What is reported is true.** -/
theorem reports_of_reconcile (hc : c.Quiet) (hd : config.Disjoint) {r : Reconciliation}
    (h : reconcile config codec c = .ok r c') : r.Reports c.store config := by
  obtain ⟨hprimary, -, previous, log, n, c₁, hprevious, hbuild, -, rfl, -⟩ := of_reconcile h
  have hd' := hd.building previous (c.store.ready config).names
  obtain ⟨-, -, hscanned, -⟩ := of_build ((hc.setStore _).setLog log)
    (Store.table?_ready_primary hprimary) hd'.primary hd'.distinct hbuild
  exact ⟨⟨previous, hprevious, rfl⟩, config.unbuilt_ready hd c.store previous,
    config.unconfigured_eq previous, hscanned⟩

/-- **The tables are in line** after they were brought there. -/
theorem inLine_of_reconcile (hc : c.Quiet) (hd : config.Disjoint) {r : Reconciliation}
    (h : reconcile config codec c = .ok r c') :
    c'.Quiet ∧ c'.store.InLine c.store config codec r.rebuilt := by
  obtain ⟨hprimary, hmetadata, previous, log, n, c₁, -, hbuild, -, rfl, rfl⟩ := of_reconcile h
  have hd' := hd.building previous (c.store.ready config).names
  obtain ⟨built, hbuilt, -, hquiet, hstore⟩ := of_build ((hc.setStore _).setLog log)
    (Store.table?_ready_primary hprimary) hd'.primary hd'.distinct hbuild
  obtain ⟨hrows, hentries⟩ := Contents.legible_of_build hd'.distinct hbuilt
  refine ⟨hquiet.setStore _, ?_⟩
  dsimp only at hstore ⊢
  rw [hstore]
  refine Store.inLine_described_place hprimary hmetadata hd
    (config.unbuilt_subset previous _) (fun index hindex hskipped hnone => ?_) hrows hentries
  -- An index without a table is not skipped.
  rw [config.unbuilt_ready hd] at hskipped
  exact hskipped (List.mem_filter.mpr ⟨hindex, decide_eq_true (.inr hnone)⟩)

end Call

/-! ## Opening that succeeds -/

/-- Legible rows are built, whatever of the indices is to be built. -/
theorem Contents.build_of_legible [Record R] {codec : Codec R}
    {indices chosen : List String} (hdistinct : chosen.Nodup)
    (hsub : ∀ index ∈ chosen, index ∈ indices)
    {rows : OrderedMap Bytes Bytes} {records : List R}
    (hlegible : codec.Legible indices rows.toList records) :
    ∃ h, build codec chosen rows = .ok h := by
  rw [build]
  split
  · exact ⟨_, rfl⟩
  · obtain ⟨h, hrebuild, -⟩ := rebuild_of_legible hdistinct (hlegible.subset hsub)
    exact ⟨h, hrebuild⟩

/-- **A bucket is opened** if its own two tables are of their kinds, the descriptor is read, and
all rows can be filed in the configured indices. -/
theorem Call.openBucket_ok [Record R] {c : Context σ} (hc : c.Quiet) {config : BucketConfig}
    (hvalid : config.validate = .ok ()) (hprimary : c.store.OfKind .primary config.name)
    (hmetadata : c.store.OfKind .metadata config.metadataName) {previous : Option Descriptor}
    (hprevious : Descriptor.stored (c.store.metadataIn config.metadataName) = .ok previous)
    {codec : Codec R} {records : List R}
    (hlegible : codec.Legible config.indices (c.store.rowsIn config.name).toList records) :
    ∃ b c', openBucket config codec c = .ok b c' := by
  have hd := config.disjoint_of_validate hvalid
  have hends := reconcile_ends (hc.setStore (c.store.ready config)) hd
    (Store.table?_ready_primary hprimary) (Store.table?_ready_metadata hmetadata) codec
  rw [hprevious] at hends
  obtain ⟨h, hbuild⟩ := Contents.build_of_legible
    (hd.building previous (c.store.ready config).names).distinct
    (config.unbuilt_subset previous (c.store.ready config).names) hlegible
  have hbuild' : Contents.build codec (config.unbuilt previous (c.store.ready config).names)
      (c.store.rowsIn config.name) = .ok h := hbuild
  simp only [bind, Except.bind, Store.reconciled, hbuild'] at hends
  obtain ⟨reconciliation, c', hrun, -⟩ := hends
  rw [← reconcile_ready hprimary hmetadata] at hrun
  exact ⟨⟨config, codec, reconciliation⟩, _, (bind_ok (lift_ok hvalid c)).trans
    ((bind_ok (atomically_ok hrun)).trans (bind_ok (log_run _ c')))⟩

/-! ## Opening again -/

/-- The report of a bucket whose tables were in line. -/
def Reconciliation.nothing (config : BucketConfig) : Reconciliation :=
  ⟨some config.indices, [], [], 0⟩

theorem Reconciliation.Reports.eq_nothing {r : Reconciliation} {s : Store} {config : BucketConfig}
    (h : r.Reports s config) (hdescriptor : Descriptor.stored (s.metadataIn config.metadataName)
      = .ok (some (Descriptor.ofIndices config.indices)))
    (hactive : ∀ index ∈ config.indices, s.table? index ≠ none) : r = .nothing config := by
  obtain ⟨⟨stored, hstored, hprevious⟩, hrebuilt, horphaned, hscanned⟩ := h
  rw [hdescriptor] at hstored
  cases hstored
  rw [hprevious] at hrebuilt horphaned
  have hnone : r.rebuilt = [] := by
    rw [hrebuilt, List.filter_eq_nil_iff]
    intro index hindex
    simp [Descriptor.ofIndices, hindex, hactive index hindex]
  have hall : r.orphaned = [] := by
    rw [horphaned, List.filter_eq_nil_iff]
    intro index hindex
    have hmem : index ∈ config.indices := hindex
    simp [hmem]
  rw [if_pos hnone] at hscanned
  cases r
  cases hprevious
  cases hnone
  cases hall
  cases hscanned
  rfl

/-- A bucket in line is left as it is: no index is built, and the descriptor is written over
itself. -/
theorem Store.InLine.reconciled_eq [Record R] {s s₀ : Store} {config : BucketConfig}
    {codec : Codec R} {rebuilt : List String} (h : s.InLine s₀ config codec rebuilt) :
    s.reconciled config codec (some (Descriptor.ofIndices config.indices)) (s₀.rowsIn config.name)
      ((s₀.metadataIn config.metadataName).insert Descriptor.rowKey
        (Descriptor.ofIndices config.indices).toBytes) = .ok s := by
  have hunbuilt : config.unbuilt (some (Descriptor.ofIndices config.indices)) s.names = [] := by
    rw [BucketConfig.unbuilt, List.filter_eq_nil_iff]
    intro index hindex
    have hname := (s.mem_names_iff index).mpr (h.active index hindex)
    simp [Descriptor.ofIndices, hindex, hname]
  have hplace : s.place ⟨config.name, []⟩ ⟨s₀.rowsIn config.name, fun _ => .empty⟩ = s :=
    Holds.place_eq ⟨h.rows, fun index hindex => by cases hindex⟩
  have hinsert : ∀ (m : OrderedMap String Bytes) (bytes : Bytes),
      (m.insert Descriptor.rowKey bytes).insert Descriptor.rowKey bytes
        = m.insert Descriptor.rowKey bytes := by
    intro m bytes
    refine OrderedMap.ext_get? fun k => ?_
    simp only [OrderedMap.get?_insert]
    split <;> rfl
  rw [reconciled, BucketConfig.building, hunbuilt, hinsert]
  show Except.ok ((s.place ⟨config.name, []⟩ ⟨s₀.rowsIn config.name, fun _ => .empty⟩).put
    config.metadataName _) = Except.ok s
  rw [hplace, put_self h.metadata]

/-- **Opening a bucket whose tables are in line** does nothing, and says so. -/
theorem Call.openBucket_inLine [Record R] {c : Context σ} (hc : c.Quiet) {config : BucketConfig}
    (hvalid : config.validate = .ok ()) (hsized : config.Sized) {codec : Codec R} {s₀ : Store}
    {rebuilt : List String} (h : c.store.InLine s₀ config codec rebuilt) :
    ∃ b c', openBucket config codec c = .ok b c' ∧ b.reconciliation = .nothing config ∧
      c'.store = c.store := by
  have hd := config.disjoint_of_validate hvalid
  have hends := reconcile_ends hc hd h.rows h.metadata codec
  have hdescriptor := h.descriptor hsized
  rw [Store.metadataIn_eq h.metadata] at hdescriptor
  simp only [hdescriptor, bind, Except.bind, h.reconciled_eq] at hends
  obtain ⟨b, c', hrun, -, -, -, hstore⟩ := openBucket_of_ends hvalid (.ok c.store) hends
  obtain ⟨-, -, -, c₁, log, hreconcile, -⟩ := of_openBucket hrun
  exact ⟨b, c', hrun, (reports_of_reconcile hc hd hreconcile).eq_nothing (h.descriptor hsized)
    h.active, hstore⟩

end IndexedStore
