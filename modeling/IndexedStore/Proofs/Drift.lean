import IndexedStore.Proofs.Footprint
import IndexedStore.Proofs.Repair
import IndexedStore.Proofs.Simulation

set_option autoImplicit false

/-! # Index tables that went missing

Another program may drop the table of an active index. Opening it for writing would make an empty
one in its place, in which no record is found. So every call that edits indices looks for all their
tables before it opens any, and stops at the first that is absent (`Store.firstAbsent?`), however
little it has to do; then the transaction is undone, and the drift is there to be seen: by reading
the index, by a scrub (`Bucket.missing_of_absent`), and by the next opening, which builds what is
missing (`Bucket.openBucket_builds_absent`), as a reindex does. -/

namespace IndexedStore

variable {R σ α : Type}

/-! ## The first absent table -/

/-- The first of some indices that has no table. -/
def Store.firstAbsent? (s : Store) (indices : List String) : Option String :=
  indices.find? fun index => (s.table? index).isNone

namespace Store

variable {s : Store} {indices : List String} {first : String}

theorem mem_of_firstAbsent? (h : s.firstAbsent? indices = some first) :
    first ∈ indices ∧ s.table? first = none := by
  refine ⟨List.mem_of_find?_eq_some h, ?_⟩
  have hnone := List.find?_some h
  exact Option.isNone_iff_eq_none.mp hnone

/-- The first absent table is said by the tables of the indices alone. -/
theorem firstAbsent?_congr {s' : Store} (h : ∀ index ∈ indices, s'.table? index = s.table? index) :
    s'.firstAbsent? indices = s.firstAbsent? indices := by
  induction indices with
  | nil => rfl
  | cons index rest ih =>
    have hrest := ih fun i hi => h i (List.mem_cons_of_mem _ hi)
    rw [firstAbsent?, firstAbsent?] at hrest ⊢
    rw [List.find?_cons, List.find?_cons, h index List.mem_cons_self, hrest]

end Store

namespace Call

variable {c : Context σ} {config : BucketConfig} {first : String}

/-- **A transaction that opens the tables of a bucket for writing** stops at the first absent index,
whatever it would do with the tables, and is undone. -/
theorem atomically_absent (hd : config.Disjoint) (hkinds : c.store.OwnKinds config)
    (hfirst : c.store.firstAbsent? config.indices = some first) (x : Call σ α) :
    atomically (do
      openTable .primary config.name
      openIndices config.indices
      x) c = .error (.failed (.missingIndex first)) c := by
  have hsame : ∀ index ∈ config.indices,
      (c.store.opened .primary config.name).table? index = c.store.table? index := by
    intro index hindex
    have hne : index ≠ config.name := fun he => hd.primary (he ▸ hindex)
    rw [Store.table?_opened, if_neg hne]
  have hopened : (c.store.opened .primary config.name).firstAbsent? config.indices = some first :=
    (Store.firstAbsent?_congr hsame).trans hfirst
  have hkinds' : ∀ index ∈ config.indices,
      (c.store.opened .primary config.name).OfKind .index index := fun index hindex t ht =>
    hkinds.index index hindex t (hsame index hindex ▸ ht)
  have hstop : openIndices config.indices
      { c with store := c.store.opened .primary config.name }
      = .error (.failed (.missingIndex first))
        { c with store := c.store.opened .primary config.name } :=
    openIndices_absent hkinds' hopened
  have hrun : (do
      openTable .primary config.name
      openIndices config.indices
      x : Call σ α) c = .error (.failed (.missingIndex first))
        { c with store := c.store.opened .primary config.name } :=
    (bind_ok (openTable_run hkinds.primary)).trans (bind_error hstop)
  rw [atomically_error hrun]

end Call

variable [Record R]

namespace Bucket

open Call

variable (b : Bucket R) {c : Context σ} {first : String}

/-! ## The calls -/

theorem insert_absent (hc : c.Quiet) (hd : b.config.Disjoint) (hkinds : c.store.OwnKinds b.config)
    (hfirst : c.store.firstAbsent? b.indices = some first) (records : List R) :
    b.insert records c = .error (.failed (.missingIndex first)) c :=
  (bind_ok (look_ok hc)).trans (bind_error (atomically_absent hd hkinds hfirst _))

theorem delete_absent (hc : c.Quiet) (hd : b.config.Disjoint) (hkinds : c.store.OwnKinds b.config)
    (hfirst : c.store.firstAbsent? b.indices = some first) (keys : List Bytes) :
    b.delete keys c = .error (.failed (.missingIndex first)) c :=
  (bind_ok (look_ok hc)).trans (bind_error (atomically_absent hd hkinds hfirst _))

theorem eq_of_entriesByIndex {c c' : Context σ} (hc : c.Quiet) {records : List R}
    {indices : List String} {entries : List (OrderedSet Bytes)}
    (h : entriesByIndex records indices c = .ok entries c') : c' = c := by
  rw [entriesByIndex_eq hc] at h
  split at h
  · cases h
  · cases h
    rfl

omit [Record R] in
/-- A tame mutator that ended with records has left the store as it was. -/
theorem quiet_of_mutate {c c' : Context σ} (hc : c.Quiet) {mutator : Mutator σ R}
    (hmutator : mutator.Tame) {records mutated : List R}
    (h : mutate mutator records c = .ok mutated c') : c'.Quiet ∧ c'.store = c.store := by
  obtain ⟨slice, hrun, -⟩ := of_mutate h
  have htame := hmutator _ (.whole records) c hc
  rw [hrun] at htame
  exact htame

/-- **An update** does not get past the opening of the indices, if it gets there at all. -/
theorem not_update_of_absent (hc : c.Quiet) (hd : b.config.Disjoint)
    (hfirst : c.store.firstAbsent? b.indices = some first) (records : List R)
    {mutator : Mutator σ R} (hmutator : mutator.Tame) (c' : Context σ) :
    b.update records mutator c ≠ .ok () c' := by
  intro h
  obtain ⟨hmem, habsent⟩ := Store.mem_of_firstAbsent? hfirst
  rw [update_eq, bind_ok (look_ok hc)] at h
  obtain ⟨counts, c₀, hatomic, -⟩ := of_bind_ok h
  obtain ⟨⟨⟩, c₁, hopen, hfetching⟩ := of_bind_ok (of_atomically_ok hatomic)
  obtain ⟨hkind, rfl⟩ := of_openTable hopen
  have hc₁ := hc.setStore (c.store.opened .primary b.name)
  -- Up to the mutator the call only reads, so the mutator runs in a quiet context.
  obtain ⟨stored, c₂, hfetch, hlooking⟩ := of_bind_ok hfetching
  rw [b.fetchEach_eq (h := ⟨c.store.rowsIn b.name, fun _ => .empty⟩) hc₁
    (Store.table?_opened_primary hkind)] at hfetch
  obtain ⟨-, rfl⟩ := of_lift_ok hfetch
  obtain ⟨before, c₃, hbefore, hmutating⟩ := of_bind_ok hlooking
  obtain rfl := eq_of_entriesByIndex hc₁ hbefore
  rw [bind_ok (look_ok hc₁)] at hmutating
  obtain ⟨mutated, c₄, hmutate, hreplace⟩ := of_bind_ok hmutating
  obtain ⟨-, hstore⟩ := quiet_of_mutate hc₁ hmutator hmutate
  obtain ⟨entries, hentries⟩ := (b.of_replace hreplace).2 first hmem
  -- Nothing on the way has made the absent table.
  have hname : b.name ∉ b.indices := hd.primary
  have hne : first ≠ b.name := fun he => hname (he ▸ hmem)
  rw [hstore, Store.table?_opened, if_neg hne, habsent] at hentries
  cases hentries

omit [Record R] in
/-- **Reading an index** whose table is absent. -/
theorem readIndex_absent (hc : c.Quiet) {index : String} (hindex : index ∈ b.indices)
    (habsent : c.store.table? index = none) (values : List Bytes) :
    ∃ log, b.readIndex index values c
      = .error (.failed (.missingIndex index)) { c with log } := by
  have hactive : ¬ (!b.indices.contains index) = true := by simp [hindex]
  have htable : indexTable index c
      = .error (.failed (.missingIndex index)) { c with log := c.log ++ [.indexMissing] } := by
    rw [indexTable, bind_ok (store_run c), Store.readIndex, habsent]
    rfl
  refine ⟨c.log ++ [.indexMissing], ?_⟩
  rw [readIndex, if_neg hactive]
  exact (bind_ok (look_ok hc)).trans (bind_error htable)

/-! ## What surfaces -/

/-- A finding of an absent table lists all that is expected in it. -/
theorem missing_of_absent {finding : IndexIntegrity} {s : Store} {expected : OrderedSet Bytes}
    (h : finding.Exact s expected) (habsent : finding.tableMissing = true) :
    expected.keys.map CompositeKey.decode? = finding.missing.map some := by
  have hmissing := h.missing
  rwa [Store.entriesIn, h.absent.mp habsent, OrderedMap.without_empty] at hmissing

/-- Opening a bucket whose rows are legible builds the indices that are absent. -/
theorem openBucket_builds_absent (hvalid : b.config.validate = .ok ()) (hc : c.Quiet)
    (hkinds : c.store.OwnKinds b.config) {previous : Option Descriptor}
    (hprevious : Descriptor.stored (c.store.metadataIn b.config.metadataName) = .ok previous)
    {records : List R}
    (hlegible : b.codec.Legible b.indices (c.store.rowsIn b.name).toList records) :
    ∃ b' c', openBucket b.config b.codec c = .ok b' c' ∧ ∀ index ∈ b.indices,
      c.store.table? index = none →
        c'.store.table? index = some (.index (Index.expected records index)) := by
  have hd := b.config.disjoint_of_validate hvalid
  obtain ⟨b', c', hrun⟩ := openBucket_ok hc hvalid hkinds.primary hkinds.metadata hprevious hlegible
  obtain ⟨-, -, -, c₁, log, hreconcile, rfl⟩ := of_openBucket hrun
  refine ⟨b', _, hrun, fun index hindex habsent => ?_⟩
  have hrebuilt : index ∈ b'.reconciliation.rebuilt := by
    rw [(reports_of_reconcile hc hd hreconcile).rebuilt]
    exact List.mem_filter.mpr ⟨hindex, decide_eq_true (.inr habsent)⟩
  obtain ⟨records', hlegible', hbuilt⟩ :=
    (inLine_of_reconcile hc hd hreconcile).2.built index hrebuilt
  rw [hlegible.eq hlegible'.decode]
  exact hbuilt

/-- **Drift is surfaced.** While the table of an active index is absent, no record is inserted,
updated or deleted, nothing is changed by trying, and the first absent index is named; reading an
absent index fails, and a scrub that ends shows which tables are absent and lists all that is
expected in them. If the rows can be filed, a reindex makes all indices exact, and opening the
bucket again makes those exact that were absent. -/
theorem drift_surfaces (hvalid : b.config.validate = .ok ()) (hc : c.Quiet)
    (hkinds : c.store.OwnKinds b.config)
    (hfirst : c.store.firstAbsent? b.indices = some first) :
    (∀ records, b.insert records c = .error (.failed (.missingIndex first)) c) ∧
    (∀ keys, b.delete keys c = .error (.failed (.missingIndex first)) c) ∧
    (∀ records (mutator : Mutator σ R), mutator.Tame → ∃ stop c',
      b.update records mutator c = .error stop c' ∧ c'.store = c.store) ∧
    (∀ index ∈ b.indices, c.store.table? index = none → ∀ values, ∃ log,
      b.readIndex index values c = .error (.failed (.missingIndex index)) { c with log }) ∧
    (∀ report c', b.verify c = .ok report c' → ∃ records : List R,
      (c.store.rowsIn b.name).toList.map (fun row => b.codec.decode row.2) = records.map .ok ∧
      report.indices.map (·.index) = b.indices ∧
      ∀ finding ∈ report.indices,
        (finding.tableMissing = true ↔ c.store.table? finding.index = none) ∧
        (finding.tableMissing = true →
          (Index.expected records finding.index).keys.map CompositeKey.decode?
            = finding.missing.map some)) ∧
    ∀ records, b.codec.Legible b.indices (c.store.rowsIn b.name).toList records →
      (∃ c', b.reindex c = .ok () c' ∧ ∀ index ∈ b.indices,
        c'.store.table? index = some (.index (Index.expected records index))) ∧
      ∀ previous,
        Descriptor.stored (c.store.metadataIn b.config.metadataName) = .ok previous →
        ∃ b' c', openBucket b.config b.codec c = .ok b' c' ∧ ∀ index ∈ b.indices,
          c.store.table? index = none →
            c'.store.table? index = some (.index (Index.expected records index)) := by
  have hd := b.config.disjoint_of_validate hvalid
  refine ⟨b.insert_absent hc hd hkinds hfirst, b.delete_absent hc hd hkinds hfirst,
    fun records mutator hmutator => ?_,
    fun index hindex habsent => b.readIndex_absent hc hindex habsent, fun report c' hrun => ?_,
    fun records hlegible => ⟨?_, fun previous hprevious =>
      b.openBucket_builds_absent hvalid hc hkinds hprevious hlegible⟩⟩
  · cases hrun : b.update records mutator c with
    | ok _ c' => exact absurd hrun (b.not_update_of_absent hc hd hfirst records hmutator c')
    | error stop c' =>
      exact ⟨stop, c', rfl, (Write.update records mutator).reverts b c stop c' hrun⟩
  · obtain ⟨records, hdecode, -, hexact⟩ := b.of_verify hc hkinds.index hrun
    exact ⟨records, hdecode, hexact.order, fun finding hfinding =>
      ⟨(hexact.findings finding hfinding).absent,
        missing_of_absent (hexact.findings finding hfinding)⟩⟩
  · have hreindex := b.reindex_run hc hkinds.primary hd
    rw [List.findSome?_eq_none_iff.mpr hlegible.fault?_eq_none] at hreindex
    obtain ⟨records', c', hlegible', hrun, -, hstore⟩ := hreindex
    rw [← hlegible.eq hlegible'.decode] at hstore
    exact ⟨c', hrun, hstore ▸ (Store.repaired_place hd.primary c.store records).index⟩

/-! ### A word without its letters -/

theorem drift_surfaces_misfiled :
    let b : Bucket Word := ⟨⟨"words", ["initial", "letter"]⟩, .words, ⟨none, [], [], 0⟩⟩
    let c : Context Unit := Call.quiet .misfiled [] ()
    b.config.validate = .ok () ∧ c.Quiet ∧ c.store.OwnKinds b.config ∧
      c.store.firstAbsent? b.indices = some "letter" ∧
      b.insert [] c = .error (.failed (.missingIndex "letter")) c ∧
      b.delete [[7, 8]] c = .error (.failed (.missingIndex "letter")) c ∧
      (∃ stop c', b.update [⟨[7, 8]⟩] .reversing c = .error stop c' ∧ c'.store = c.store) ∧
      (∃ log, b.readIndex "letter" [[7]] c
        = .error (.failed (.missingIndex "letter")) { c with log }) ∧
      (∃ c', b.reindex c = .ok () c' ∧
        c'.store.table? "letter" = some (.index (Index.expected [(⟨[7, 8]⟩ : Word)] "letter"))) ∧
      ∃ b' c', openBucket b.config b.codec c = .ok b' c' ∧
        c'.store.table? "letter" = some (.index (Index.expected [(⟨[7, 8]⟩ : Word)] "letter")) := by
  intro b c
  have hquiet : c.Quiet := Context.quiet_quiet _ _ _
  have hkinds : c.store.OwnKinds b.config := by decide +kernel
  have hfirst : c.store.firstAbsent? b.indices = some "letter" := by decide +kernel
  have hletter : "letter" ∈ b.indices := by decide
  have habsent : c.store.table? "letter" = none := by decide +kernel
  have hlegible : b.codec.Legible b.indices (c.store.rowsIn b.name).toList [(⟨[7, 8]⟩ : Word)] := by
    have hrows : c.store.rowsIn b.name = .ofList [([7, 8], [7, 8])] := by decide +kernel
    rw [hrows]
    exact ⟨rfl, rfl, by decide⟩
  have hprevious : Descriptor.stored (c.store.metadataIn b.config.metadataName) = .ok none := by
    have hmetadata : c.store.metadataIn b.config.metadataName = .empty := by decide +kernel
    rw [hmetadata]
    rfl
  obtain ⟨hinsert, hdelete, hupdate, hread, -, hlegibly⟩ :=
    b.drift_surfaces rfl hquiet hkinds hfirst
  obtain ⟨⟨c₁, hreindex, hindex⟩, hopen⟩ := hlegibly _ hlegible
  obtain ⟨b', c₂, hopened, hbuilt⟩ := hopen none hprevious
  exact ⟨rfl, hquiet, hkinds, hfirst, hinsert [], hdelete [[7, 8]],
    hupdate [⟨[7, 8]⟩] .reversing Mutator.reversing_tame, hread "letter" hletter habsent [[7]],
    ⟨c₁, hreindex, hindex "letter" hletter⟩, b', c₂, hopened, hbuilt "letter" hletter habsent⟩

end Bucket

end IndexedStore
