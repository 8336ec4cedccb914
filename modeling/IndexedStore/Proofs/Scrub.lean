import IndexedStore.Bucket.Verify
import IndexedStore.Proofs.Entries
import IndexedStore.Proofs.Tables
import IndexedStore.Record.Word

set_option autoImplicit false

/-! # What a scrub finds

The scrub gathers the expected entries of all indices over all records first. What it has gathered
after some of the records are the expected entries of these (`Gathered`), and each record keeps that
so. Then every finding is exact (`IndexIntegrity.Exact`): it says whether the table is absent, and
lists the expected entries that are not there, each as its pair, and the entries that are not
expected. No entry is lost when it is shown as a pair, for expected entries are all readable. -/

namespace IndexedStore

variable {R σ : Type} [Record R]

/-! ## Gathering -/

namespace Bucket

open Call

theorem get?_insertEach {ν : Type} (names : List String) (v : ν) (m : OrderedMap String ν)
    (name : String) :
    ((names.map (·, v)).foldl (fun m row => m.insert row.1 row.2) m).get? name
      = if name ∈ names then some v else m.get? name := by
  induction names generalizing m with
  | nil => simp
  | cons first rest ih =>
    rw [List.map_cons, List.foldl_cons, ih, OrderedMap.get?_insert]
    by_cases hrest : name ∈ rest <;> by_cases hfirst : name = first <;> simp [hrest, hfirst]

/-- What is expected in each of the indices is what the records call for. -/
def Gathered (indices : List String) (records : List R) (expected : Expected) : Prop :=
  ∀ index, expected.get? index =
    if index ∈ indices then some (Index.expected records index) else none

theorem gathered_none (indices : List String) :
    Gathered indices ([] : List R) (.none indices) := by
  intro index
  exact get?_insertEach indices OrderedMap.empty OrderedMap.empty index

theorem Gathered.mem_keys {indices : List String} {records : List R} {expected : Expected}
    (h : Gathered indices records expected) (index : String) :
    index ∈ expected.keys ↔ index ∈ indices := by
  rw [OrderedMap.mem_keys_iff, OrderedMap.contains, h index]
  split <;> simp_all

/-- Asking a record in some of the indices adds its entries there. -/
theorem expectRecord_ok {c : Context σ} (hc : c.Quiet) {record : R} {indices : List String}
    (hfits : Index.Fits indices record) (expected : Expected) :
    ∃ after, expectRecord record expected indices c = .ok after c ∧
      ∀ index, after.get? index = if index ∈ indices
        then some (((expected.get? index).getD .empty).union (Index.expected [record] index))
        else expected.get? index := by
  induction indices generalizing expected with
  | nil => exact ⟨expected, rfl, fun index => by simp⟩
  | cons first rest ih =>
    have hrest : Index.Fits rest record := fun index hindex =>
      hfits index (List.mem_cons_of_mem _ hindex)
    obtain ⟨after, hrun, hafter⟩ := ih hrest (expected.insert first
      (((expected.get? first).getD .empty).union (Index.expected [record] first)))
    refine ⟨after, ?_, fun index => ?_⟩
    · rw [expectRecord, bind_ok (Index.entriesOf_ok hc hfits List.mem_cons_self), hrun]
    · rw [hafter, OrderedMap.get?_insert]
      by_cases hfirst : index = first
      · subst hfirst
        by_cases hmem : index ∈ rest
        -- An index that is asked twice answers the same entries twice, and a set shows them once.
        · rw [if_pos hmem, if_pos rfl, if_pos List.mem_cons_self, Option.getD_some]
          congr 1
          refine OrderedMap.ext_contains fun e => ?_
          simp only [OrderedMap.contains_union, or_assoc, or_self]
        · rw [if_neg hmem, if_pos rfl, if_pos List.mem_cons_self]
      · simp only [List.mem_cons, hfirst, false_or]
        rfl

theorem Gathered.expectRecord_ok {c : Context σ} (hc : c.Quiet) {indices : List String}
    {records : List R} {expected : Expected} (h : Gathered indices records expected) {record : R}
    (hfits : Index.Fits indices record) :
    ∃ after, expectRecord record expected expected.keys c = .ok after c ∧
      Gathered indices (records ++ [record]) after := by
  have hfits' : Index.Fits expected.keys record := fun index hindex =>
    hfits index ((h.mem_keys index).mp hindex)
  obtain ⟨after, hrun, hafter⟩ := Bucket.expectRecord_ok hc hfits' expected
  refine ⟨after, hrun, fun index => ?_⟩
  rw [hafter, h index]
  simp only [h.mem_keys]
  by_cases hindex : index ∈ indices
  · simp only [if_pos hindex, Option.getD_some, Option.some.injEq]
    refine OrderedMap.ext_contains fun e => ?_
    rw [OrderedMap.contains_union, Index.contains_expected_append]
  · simp only [if_neg hindex]

/-- A record that answered in some indices fits them. -/
theorem of_expectRecord {c c' : Context σ} (hc : c.Quiet) {record : R} {indices : List String}
    {expected after : Expected} (h : expectRecord record expected indices c = .ok after c') :
    Index.Fits indices record ∧ c' = c := by
  induction indices generalizing expected with
  | nil =>
    cases h
    exact ⟨fun index hindex => (by cases hindex), rfl⟩
  | cons index rest ih =>
    obtain ⟨entries, c₁, hasked, hrest⟩ := of_bind_ok h
    rw [entriesOf_eq hc] at hasked
    obtain ⟨hentries, rfl⟩ := of_lift_ok hasked
    obtain ⟨hfits, rfl⟩ := ih hrest
    exact ⟨List.forall_mem_cons.mpr ⟨Index.short_of_entries hentries, hfits⟩, rfl⟩

variable (b : Bucket R)

/-- **Gathering** over rows that all decode goes through all records. -/
theorem expectEach_ok {c : Context σ} (hc : c.Quiet) {rows : List (Bytes × Bytes)} {more : List R}
    (hdecode : rows.map (fun row => b.codec.decode row.2) = more.map .ok)
    (hfits : ∀ record ∈ more, Index.Fits b.indices record)
    {records : List R} {expected : Expected} (h : Gathered b.indices records expected) :
    ∃ after, b.expectEach expected rows c = .ok after c ∧
      Gathered b.indices (records ++ more) after := by
  induction rows generalizing more records expected with
  | nil =>
    obtain rfl : more = [] := List.map_eq_nil_iff.mp hdecode.symm
    exact ⟨expected, rfl, by rwa [List.append_nil]⟩
  | cons row rest ih =>
    obtain ⟨key, bytes⟩ := row
    cases more with
    | nil => cases hdecode
    | cons record more =>
      rw [List.map_cons, List.map_cons, List.cons.injEq] at hdecode
      obtain ⟨between, hrun, hbetween⟩ := h.expectRecord_ok hc (hfits record List.mem_cons_self)
      obtain ⟨after, hrest, hafter⟩ :=
        ih hdecode.2 (fun r hr => hfits r (List.mem_cons_of_mem _ hr)) hbetween
      refine ⟨after, ?_, ?_⟩
      · rw [expectEach, bind_ok (look_ok hc), bind_ok (decode_ok hc hdecode.1), bind_ok hrun, hrest]
      · rw [List.append_cons]
        exact hafter

/-- Rows that were gathered all decode, to records that fit. -/
theorem of_expectEach {c c' : Context σ} (hc : c.Quiet) {rows : List (Bytes × Bytes)}
    {records : List R} {expected after : Expected} (h : Gathered b.indices records expected)
    (hrun : b.expectEach expected rows c = .ok after c') :
    ∃ more : List R, rows.map (fun row => b.codec.decode row.2) = more.map .ok ∧
      ∀ record ∈ more, Index.Fits b.indices record := by
  induction rows generalizing records expected with
  | nil => exact ⟨[], rfl, fun record hrecord => by cases hrecord⟩
  | cons row rest ih =>
    obtain ⟨key, bytes⟩ := row
    rw [expectEach, bind_ok (look_ok hc)] at hrun
    obtain ⟨record, c₁, hdecode, hasked⟩ := of_bind_ok hrun
    rw [decode_eq hc] at hdecode
    obtain ⟨hrecord, rfl⟩ := of_lift_ok hdecode
    obtain ⟨between, c₂, hexpect, hrest⟩ := of_bind_ok hasked
    obtain ⟨hkeys, rfl⟩ := of_expectRecord hc hexpect
    have hfits : Index.Fits b.indices record := fun index hindex =>
      hkeys index ((h.mem_keys index).mpr hindex)
    obtain ⟨_, hexpect', hbetween⟩ := h.expectRecord_ok hc hfits
    rw [hexpect] at hexpect'
    cases hexpect'
    obtain ⟨more, hmore, hfitsMore⟩ := ih hbetween hrest
    exact ⟨record :: more, by rw [List.map_cons, List.map_cons, hrecord, hmore],
      List.forall_mem_cons.mpr ⟨hfits, hfitsMore⟩⟩

end Bucket

/-! ## Comparing -/

/-- The entries of an index table; none if there is no such table. -/
def Store.entriesIn (s : Store) (index : String) : OrderedSet Bytes :=
  match s.table? index with
  | some (.index entries) => entries
  | _ => .empty

theorem Store.entriesIn_eq {s : Store} {index : String} {entries : OrderedSet Bytes}
    (h : s.table? index = some (.index entries)) : s.entriesIn index = entries := by
  simp only [entriesIn, h]

theorem Store.entriesIn_congr {s s' : Store} {index : String}
    (h : s'.table? index = s.table? index) : s'.entriesIn index = s.entriesIn index := by
  simp only [entriesIn, h]

/-- A finding says of an index what is true of its table, given the entries that are expected. -/
structure IndexIntegrity.Exact (finding : IndexIntegrity) (s : Store)
    (expected : OrderedSet Bytes) : Prop where
  /-- The table is reported as absent if it is. -/
  absent : finding.tableMissing = true ↔ s.table? finding.index = none
  /-- Each expected entry that is not there is shown as its pair, and nothing else is. -/
  missing : (expected.without (s.entriesIn finding.index)).map CompositeKey.decode?
    = finding.missing.map some
  /-- The pairs are shown in the order of their entries. -/
  missing_ascending : finding.missing.Pairwise fun p q =>
    compare (CompositeKey.entry p.1 p.2) (CompositeKey.entry q.1 q.2) = .lt
  /-- Each entry that is there and not expected is shown as it is, and nothing else is. -/
  orphaned : finding.orphaned = (s.entriesIn finding.index).without expected
  /-- The entries are shown in their order. -/
  orphaned_ascending : finding.orphaned.Pairwise fun e f => compare e f = .lt

/-- A report says of each of some indices what is true of its table, given the records. -/
structure IntegrityReport.Exact (report : IntegrityReport) (s : Store) (indices : List String)
    (records : List R) : Prop where
  /-- There is a finding per index, in the order of the indices. -/
  order : report.indices.map (·.index) = indices
  /-- Every finding is exact. -/
  findings : ∀ finding ∈ report.indices, finding.Exact s (Index.expected records finding.index)

/-- An entry that reads as a pair is the entry of the pair. -/
def CompositeKey.Readable (e : Bytes) : Prop :=
  ∃ pair : Bytes × Bytes, decode? e = some pair ∧ entry pair.1 pair.2 = e

/-- Entries that are expected of short values are readable. -/
theorem Index.expected_readable {indices : List String} {records : List R} {index : String}
    (hindex : index ∈ indices) (hfits : ∀ record ∈ records, Fits indices record) {e : Bytes}
    (he : (expected records index).contains e) : CompositeKey.Readable e := by
  obtain ⟨record, hrecord, value, hvalue, rfl⟩ := (contains_expected records index e).mp he
  exact ⟨(value, Record.key record),
    CompositeKey.decode?_entry (hfits record hrecord index hindex value hvalue) _, rfl⟩

namespace Bucket

open Call

/-- Of readable entries, none is lost when they are shown as pairs, and their order is kept. -/
theorem filterMap_decode? {l : List Bytes} (h : ∀ e ∈ l, CompositeKey.Readable e) :
    l.map CompositeKey.decode? = (l.filterMap CompositeKey.decode?).map some ∧
      (l.filterMap CompositeKey.decode?).map (fun p => CompositeKey.entry p.1 p.2) = l := by
  induction l with
  | nil => exact ⟨rfl, rfl⟩
  | cons e rest ih =>
    obtain ⟨pair, hpair, hentry⟩ := h e List.mem_cons_self
    obtain ⟨hshown, hentries⟩ := ih fun f hf => h f (List.mem_cons_of_mem _ hf)
    rw [List.filterMap_cons_some hpair]
    exact ⟨by rw [List.map_cons, hpair, hshown]; rfl, by rw [List.map_cons, hentry, hentries]⟩

/-- A finding that shows the differences of the table and what is expected is exact. -/
theorem exact_of_differences {s : Store} {finding : IndexIntegrity} {expected : OrderedSet Bytes}
    (hread : ∀ e, expected.contains e → CompositeKey.Readable e)
    (habsent : finding.tableMissing = true ↔ s.table? finding.index = none)
    (hmissing : finding.missing
      = (expected.without (s.entriesIn finding.index)).filterMap CompositeKey.decode?)
    (horphaned : finding.orphaned = (s.entriesIn finding.index).without expected) :
    finding.Exact s expected := by
  obtain ⟨hshown, hentries⟩ := filterMap_decode?
    fun e (he : e ∈ expected.without (s.entriesIn finding.index)) =>
      hread e ((OrderedMap.mem_without_iff _ _ _).mp he).1
  refine ⟨habsent, hmissing ▸ hshown, ?_, horphaned, ?_⟩
  · have hasc := expected.without_ascending (s.entriesIn finding.index)
    rw [← hentries, List.pairwise_map] at hasc
    exact hmissing ▸ hasc
  · exact horphaned ▸ (s.entriesIn finding.index).without_ascending expected

/-- **Comparing** a table that is absent or an index table gives an exact finding. -/
theorem compareIndex_ok {c : Context σ} (hc : c.Quiet) {index : String}
    (hkind : ∀ t, c.store.table? index = some t → t.kind = .index) {expected : OrderedSet Bytes}
    (hread : ∀ e, expected.contains e → CompositeKey.Readable e) :
    ∃ finding, compareIndex index expected c = .ok finding c ∧ finding.index = index ∧
      finding.Exact c.store expected := by
  cases ht : c.store.table? index with
  | none =>
    -- An absent table lacks all that is expected, and nothing stands in it.
    refine ⟨⟨index, true, expected.keys.filterMap CompositeKey.decode?, []⟩, ?_, rfl,
      exact_of_differences hread ⟨fun _ => ht, fun _ => rfl⟩ ?_ ?_⟩
    · rw [compareIndex, bind_ok (store_run c)]
      simp only [Store.readIndex, ht]
      rfl
    · simp only [Store.entriesIn, ht, OrderedMap.without_empty]
    · simp only [Store.entriesIn, ht, OrderedMap.empty_without]
  | some t =>
    obtain ⟨table, rfl⟩ := Table.eq_index_of_kind (hkind t ht)
    refine ⟨⟨index, false, (expected.without table).filterMap CompositeKey.decode?,
      table.without expected⟩, ?_, rfl, exact_of_differences hread (by simp [ht]) ?_ ?_⟩
    · rw [compareIndex, bind_ok (store_run c)]
      simp only [Store.readIndex, ht]
      rw [bind_ok (lookEach_ok hc _)]
      rfl
    · simp only [Store.entriesIn, ht]
    · simp only [Store.entriesIn, ht]

/-- The findings of several indices, each exact, in the order of the indices. -/
theorem compareEach_ok {c : Context σ} (hc : c.Quiet) {indices : List String} {records : List R}
    {expected : Expected} (h : Gathered indices records expected)
    (hfits : ∀ record ∈ records, Index.Fits indices record)
    (hkind : ∀ index ∈ indices, ∀ t, c.store.table? index = some t → t.kind = .index)
    {compared : List String} (hcompared : ∀ index ∈ compared, index ∈ indices) :
    ∃ findings, compareEach expected compared c = .ok findings c ∧
      findings.map (·.index) = compared ∧
      ∀ finding ∈ findings, finding.Exact c.store (Index.expected records finding.index) := by
  induction compared with
  | nil => exact ⟨[], rfl, rfl, fun finding hf => by cases hf⟩
  | cons index rest ih =>
    have hindex := hcompared index List.mem_cons_self
    have hget : (expected.get? index).getD .empty = Index.expected records index := by
      rw [h index, if_pos hindex, Option.getD_some]
    obtain ⟨finding, hrun, hname, hexact⟩ := compareIndex_ok hc (hkind index hindex)
      fun e he => Index.expected_readable hindex hfits he
    obtain ⟨findings, hrest, hnames, hexacts⟩ :=
      ih fun i hi => hcompared i (List.mem_cons_of_mem _ hi)
    refine ⟨finding :: findings, ?_, by rw [List.map_cons, hname, hnames], fun f hf => ?_⟩
    · rw [compareEach, hget, bind_ok hrun, bind_ok hrest]
      rfl
    · rcases List.mem_cons.mp hf with rfl | hf
      · rw [hname]
        exact hexact
      · exact hexacts f hf

theorem logFindings_ok (findings : List IndexIntegrity) (c : Context σ) :
    ∃ log, logFindings findings c = .ok () { c with log } := by
  induction findings generalizing c with
  | nil => exact ⟨c.log, rfl⟩
  | cons finding rest ih =>
    unfold logFindings
    cases finding.consistent with
    | true => exact ih c
    | false =>
      obtain ⟨log, hlog⟩ := ih { c with log := c.log ++ [.indexInconsistent finding.index
        finding.tableMissing finding.missing.length finding.orphaned.length] }
      exact ⟨log, hlog⟩

end Bucket

/-! ## Reports -/

theorem IndexIntegrity.consistent_iff (finding : IndexIntegrity) :
    finding.consistent = true ↔
      finding.tableMissing = false ∧ finding.missing = [] ∧ finding.orphaned = [] := by
  simp [IndexIntegrity.consistent, and_assoc]

/-- A finding is one of something wrong if there is anything to count in it. -/
theorem IndexIntegrity.consistent_iff_issueCount (finding : IndexIntegrity) :
    finding.consistent = true ↔ finding.issueCount = 0 := by
  rw [consistent_iff, issueCount]
  cases finding.tableMissing <;> simp

/-- **A report is consistent if there is nothing to count in it.** -/
theorem IntegrityReport.consistent_iff_issueCount (report : IntegrityReport) :
    report.consistent = true ↔ report.issueCount = 0 := by
  obtain ⟨records, findings⟩ := report
  simp only [consistent, issueCount]
  induction findings with
  | nil => simp
  | cons finding rest ih =>
    rw [List.all_cons, Bool.and_eq_true, ih, finding.consistent_iff_issueCount, List.foldr_cons,
      Nat.add_eq_zero_iff]

/-- An exact finding is consistent if the table is there and holds what is expected. -/
theorem IndexIntegrity.Exact.consistent_iff {finding : IndexIntegrity} {s : Store}
    {expected : OrderedSet Bytes} (h : finding.Exact s expected)
    (hkind : ∀ t, s.table? finding.index = some t → t.kind = .index) :
    finding.consistent = true ↔ s.table? finding.index = some (.index expected) := by
  rw [IndexIntegrity.consistent_iff]
  constructor
  · rintro ⟨hthere, hmissing, horphaned⟩
    obtain ⟨t, ht⟩ : ∃ t, s.table? finding.index = some t := by
      rw [← Option.ne_none_iff_exists']
      exact fun hnone => by simp [h.absent.mpr hnone] at hthere
    obtain ⟨table, rfl⟩ := Table.eq_index_of_kind (hkind t ht)
    have hin : s.entriesIn finding.index = table := Store.entriesIn_eq ht
    have hlacks := h.missing
    rw [hmissing, List.map_nil, List.map_eq_nil_iff, hin] at hlacks
    have hextra := h.orphaned
    rw [horphaned, hin] at hextra
    -- With no difference on either side the two sets are one.
    rw [ht, OrderedMap.eq_of_without_nil hlacks hextra.symm]
  · intro ht
    have hin : s.entriesIn finding.index = expected := Store.entriesIn_eq ht
    have hnothing : expected.without expected = [] := OrderedMap.without_self expected
    refine ⟨?_, ?_, ?_⟩
    · rw [Bool.eq_false_iff, ne_eq, h.absent, ht]
      exact Option.some_ne_none _
    · have hmissing := h.missing
      rw [hin, hnothing] at hmissing
      exact List.map_eq_nil_iff.mp hmissing.symm
    · rw [h.orphaned, hin, hnothing]

/-- An exact report is consistent if all tables are there and hold what is expected. -/
theorem IntegrityReport.Exact.consistent_iff {report : IntegrityReport} {s : Store}
    {indices : List String} {records : List R} (h : report.Exact s indices records)
    (hkind : ∀ index ∈ indices, ∀ t, s.table? index = some t → t.kind = .index) :
    report.consistent = true ↔
      ∀ index ∈ indices, s.table? index = some (.index (Index.expected records index)) := by
  have hindex : ∀ finding ∈ report.indices, finding.index ∈ indices := fun finding hfinding =>
    h.order ▸ List.mem_map_of_mem hfinding
  rw [consistent, List.all_eq_true]
  constructor
  · intro hall index hi
    rw [← h.order] at hi
    obtain ⟨finding, hfinding, rfl⟩ := List.mem_map.mp hi
    exact ((h.findings finding hfinding).consistent_iff
      (hkind _ (hindex finding hfinding))).mp (hall finding hfinding)
  · intro hall finding hfinding
    exact ((h.findings finding hfinding).consistent_iff
      (hkind _ (hindex finding hfinding))).mpr (hall _ (hindex finding hfinding))

/-- A scrub ends with an exact report. -/
theorem Bucket.verify_ok (b : Bucket R) {c : Context σ} (hc : c.Quiet)
    {stored : OrderedMap Bytes Bytes} (hstored : c.store.table? b.name = some (.primary stored))
    {records : List R}
    (hdecode : stored.toList.map (fun row => b.codec.decode row.2) = records.map .ok)
    (hfits : ∀ record ∈ records, Index.Fits b.indices record)
    (hkind : ∀ index ∈ b.indices, ∀ t, c.store.table? index = some t → t.kind = .index) :
    ∃ report log, b.verify c = .ok report { c with log } ∧ report.records = stored.size ∧
      report.Exact c.store b.indices records := by
  obtain ⟨expected, hgather, hgathered⟩ :=
    b.expectEach_ok hc hdecode hfits (gathered_none b.indices)
  obtain ⟨findings, hcompare, hnames, hexact⟩ :=
    compareEach_ok hc hgathered hfits hkind fun _ hindex => hindex
  obtain ⟨log, hlog⟩ := logFindings_ok findings c
  refine ⟨⟨stored.size, findings⟩, log, ?_, rfl, hnames, hexact⟩
  rw [verify, Call.bind_ok (Call.look_ok hc), Call.bind_ok (Call.rows_ok hstored),
    Call.bind_ok hgather, Call.bind_ok hcompare, Call.bind_ok hlog]
  rfl

/-- A scrub that ends with a report ends with an exact one. -/
theorem Bucket.of_verify (b : Bucket R) {c c' : Context σ} (hc : c.Quiet)
    (hkind : ∀ index ∈ b.indices, ∀ t, c.store.table? index = some t → t.kind = .index)
    {report : IntegrityReport} (h : b.verify c = .ok report c') :
    ∃ records : List R,
      (c.store.rowsIn b.name).toList.map (fun row => b.codec.decode row.2) = records.map .ok ∧
      (∀ record ∈ records, Index.Fits b.indices record) ∧
      report.Exact c.store b.indices records := by
  have hread := h
  rw [verify, Call.bind_ok (Call.look_ok hc)] at hread
  obtain ⟨stored, c₁, hrows, hrest⟩ := Call.of_bind_ok hread
  obtain ⟨hstored, rfl⟩ := Call.of_rows hrows
  obtain ⟨expected, c₂, hgather, -⟩ := Call.of_bind_ok hrest
  obtain ⟨records, hdecode, hfits⟩ := b.of_expectEach hc (gathered_none b.indices) hgather
  obtain ⟨_, log, hrun, -, hexact⟩ := b.verify_ok hc hstored hdecode hfits hkind
  rw [h] at hrun
  cases hrun
  exact ⟨records, by rw [Store.rowsIn_eq hstored, hdecode], hfits, hexact⟩

/-- **A scrub is exact.** It ends with a report, which counts the records and has one exact finding
per index, and which is consistent just if all tables are there and hold what is expected. -/
theorem Bucket.verify_exact (b : Bucket R) {c : Context σ} (hc : c.Quiet)
    {stored : OrderedMap Bytes Bytes} (hstored : c.store.table? b.name = some (.primary stored))
    {records : List R}
    (hdecode : stored.toList.map (fun row => b.codec.decode row.2) = records.map .ok)
    (hfits : ∀ record ∈ records, Index.Fits b.indices record)
    (hkind : ∀ index ∈ b.indices, ∀ t, c.store.table? index = some t → t.kind = .index) :
    ∃ report log, b.verify c = .ok report { c with log } ∧
      report.records = stored.size ∧
      report.Exact c.store b.indices records ∧
      (report.consistent = true ↔ ∀ index ∈ b.indices,
        c.store.table? index = some (.index (Index.expected records index))) ∧
      (report.consistent = true ↔ report.issueCount = 0) := by
  obtain ⟨report, log, hrun, hrecords, hexact⟩ := b.verify_ok hc hstored hdecode hfits hkind
  exact ⟨report, log, hrun, hrecords, hexact, hexact.consistent_iff hkind,
    report.consistent_iff_issueCount⟩

/-! ### A word that is filed wrong -/

/-- A word that is filed nowhere, a malformed entry in one index, and no table of the other. -/
def Store.misfiled : Store :=
  (Store.empty.put "words" (.primary (.ofList [([7, 8], [7, 8])]))).put "initial"
    (.index (.ofList [([255], ())]))

theorem Bucket.verify_exact_misfiled :
    let b : Bucket Word := ⟨⟨"words", ["initial", "letter"]⟩, .words, ⟨none, [], [], 0⟩⟩
    let stored : OrderedMap Bytes Bytes := .ofList [([7, 8], [7, 8])]
    let records : List Word := [⟨[7, 8]⟩]
    let c : Context Unit := Call.quiet .misfiled [] ()
    c.Quiet ∧ c.store.table? b.name = some (.primary stored) ∧
      stored.toList.map (fun row => b.codec.decode row.2) = records.map .ok ∧
      (∀ record ∈ records, Index.Fits b.indices record) ∧
      (∀ index ∈ b.indices, ∀ t, c.store.table? index = some t → t.kind = .index) ∧
      ∃ report log, b.verify c = .ok report { c with log } ∧
        report.records = stored.size ∧
        report.Exact c.store b.indices records ∧
        (report.consistent = true ↔ ∀ index ∈ b.indices,
          c.store.table? index = some (.index (Index.expected records index))) ∧
        (report.consistent = true ↔ report.issueCount = 0) := by
  intro b stored records c
  have hquiet : c.Quiet := Context.quiet_quiet _ _ _
  have hstored : c.store.table? b.name = some (.primary stored) := by
    simp [c, b, stored, Call.quiet, Store.misfiled, Store.table?_put, Bucket.name]
  have hdecode : stored.toList.map (fun row => b.codec.decode row.2) = records.map .ok := rfl
  have hfits : ∀ record ∈ records, Index.Fits b.indices record := by decide
  have hkind : ∀ index ∈ b.indices, ∀ t, c.store.table? index = some t → t.kind = .index := by
    intro index hindex t ht
    rcases List.mem_cons.mp hindex with rfl | hindex
    · obtain rfl : _ = t := by simpa [c, Call.quiet, Store.misfiled, Store.table?_put] using ht
      rfl
    · obtain rfl := List.mem_singleton.mp hindex
      simp [c, Call.quiet, Store.misfiled, Store.table?_put] at ht
  exact ⟨hquiet, hstored, hdecode, hfits, hkind, b.verify_exact hquiet hstored hdecode hfits hkind⟩

end IndexedStore
