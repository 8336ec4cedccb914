import IndexedStore.Proofs.Repair

set_option autoImplicit false

/-! # Where a scrub and a reindex agree

A scrub compares the index tables with what the stored records call for, and a reindex makes them
so. Both go through all rows, but they do not ask the same of each: a reindex refuses a row whose
record reports another key, and a scrub reads the record and files it, in thought, under the key
that it reports. So a scrub that finds nothing and a reindex that changes nothing are the same only
where no record is stored under a key it does not report (`Bucket.reindex_unchanged_iff`). -/

namespace IndexedStore

variable {R σ : Type} [Record R]

/-! ## Rows in their place -/

/-- Every row that is read as a record has the key that the record reports. -/
def Codec.InPlace (codec : Codec R) (rows : List (Bytes × Bytes)) : Prop :=
  ∀ row ∈ rows, ∀ record, codec.decode row.2 = .ok record → Record.key record = row.1

namespace Codec

variable {codec : Codec R} {indices : List String} {rows : List (Bytes × Bytes)} {records : List R}

/-- Rows in their place that are read as records that fit are legible. -/
theorem InPlace.legible (hplace : codec.InPlace rows)
    (hdecode : rows.map (fun row => codec.decode row.2) = records.map .ok)
    (hfits : ∀ record ∈ records, Index.Fits indices record) :
    codec.Legible indices rows records := by
  refine ⟨hdecode, ?_, hfits⟩
  clear hfits
  induction rows generalizing records with
  | nil => rw [List.map_eq_nil_iff.mp hdecode.symm, List.map_nil, List.map_nil]
  | cons row rest ih =>
    cases records with
    | nil => cases hdecode
    | cons record more =>
      rw [List.map_cons, List.map_cons, List.cons.injEq] at hdecode
      obtain ⟨hrow, hrest⟩ := List.forall_mem_cons.mp hplace
      rw [List.map_cons, List.map_cons, hrow record hdecode.1, ih hrest hdecode.2]

theorem Legible.inPlace (h : codec.Legible indices rows records) : codec.InPlace rows := by
  intro row hrow record hdecode
  obtain ⟨record', hdecode', hkey, -⟩ :=
    (fault?_eq_none_iff row).mp (h.fault?_eq_none row hrow)
  rw [hdecode'] at hdecode
  cases hdecode
  exact hkey

/-- Of rows that are read as records that fit, nothing but a wrong key can be at fault. -/
theorem misfiled_of_fault {row : Bytes × Bytes} {e : BucketError}
    (hread : ∃ record, codec.decode row.2 = .ok record ∧ Index.Fits indices record)
    (hfault : codec.fault? indices row = some e) :
    ∃ record, codec.decode row.2 = .ok record ∧ Record.key record ≠ row.1 ∧
      e = .corrupted (.misfiled row.1 (Record.key record)) := by
  obtain ⟨record, hdecode, hfits⟩ := hread
  refine ⟨record, hdecode, ?_⟩
  rw [fault?, hdecode] at hfault
  dsimp only at hfault
  split at hfault
  · next hkey =>
    cases hfault
    exact ⟨hkey, rfl⟩
  · rw [(Index.oversizedIn?_eq_none_iff indices record).mpr hfits] at hfault
    cases hfault

end Codec

namespace Bucket

variable (b : Bucket R) {c : Context σ} {stored : OrderedMap Bytes Bytes}

/-! ## The two passes -/

/-- A scrub finds nothing where the rows are read as records that fit, and the index tables hold
what these call for. -/
theorem verify_consistent_iff (hc : c.Quiet)
    (hstored : c.store.table? b.name = some (.primary stored))
    (hindex : ∀ index ∈ b.indices, c.store.OfKind .index index) :
    (∃ report c', b.verify c = .ok report c' ∧ report.consistent = true) ↔
      ∃ records : List R, stored.toList.map (fun row => b.codec.decode row.2) = records.map .ok ∧
        (∀ record ∈ records, Index.Fits b.indices record) ∧
        ∀ index ∈ b.indices,
          c.store.table? index = some (.index (Index.expected records index)) := by
  constructor
  · rintro ⟨report, c', hrun, hconsistent⟩
    obtain ⟨records, hdecode, hfits, hexact⟩ := b.of_verify hc hindex hrun
    rw [Store.rowsIn_eq hstored] at hdecode
    exact ⟨records, hdecode, hfits, (hexact.consistent_iff hindex).mp hconsistent⟩
  · rintro ⟨records, hdecode, hfits, htables⟩
    obtain ⟨report, log, hrun, -, hexact⟩ := b.verify_ok hc hstored hdecode hfits hindex
    exact ⟨report, _, hrun, (hexact.consistent_iff hindex).mpr htables⟩

/-- A reindex changes nothing where the rows are legible and the index tables hold what their
records call for. -/
theorem reindex_unchanged_iff_legible (hvalid : b.config.validate = .ok ()) (hc : c.Quiet)
    (hstored : c.store.table? b.name = some (.primary stored)) :
    (∃ c', b.reindex c = .ok () c' ∧ c'.store = c.store) ↔
      ∃ records : List R, b.codec.Legible b.indices stored.toList records ∧
        ∀ index ∈ b.indices,
          c.store.table? index = some (.index (Index.expected records index)) := by
  have hd := b.config.disjoint_of_validate hvalid
  have hrun := b.reindex_run hc (Store.ofKind_of_table? hstored) hd
  rw [Store.rowsIn_eq hstored] at hrun
  constructor
  · rintro ⟨c', hok, hsame⟩
    cases hfault : stored.toList.findSome? (b.codec.fault? b.indices) with
    | some e =>
      rw [hfault] at hrun
      obtain ⟨c'', hstop, -⟩ := hrun
      rw [hok] at hstop
      cases hstop
    | none =>
      rw [hfault] at hrun
      obtain ⟨records, c'', hlegible, hok', -, hstore⟩ := hrun
      rw [hok] at hok'
      cases hok'
      refine ⟨records, hlegible, fun index hindex => ?_⟩
      rw [← hsame, hstore]
      exact (Store.holds_place hd.primary c.store _).index index hindex
  · rintro ⟨records, hlegible, htables⟩
    rw [List.findSome?_eq_none_iff.mpr hlegible.fault?_eq_none] at hrun
    obtain ⟨records', c', hlegible', hok, -, hstore⟩ := hrun
    obtain rfl := hlegible.eq hlegible'.decode
    have hholds : c.store.Holds b.config ⟨stored, Index.expected records⟩ := ⟨hstored, htables⟩
    exact ⟨c', hok, hstore.trans hholds.place_eq⟩

/-- **A reindex changes nothing** just if a scrub finds nothing and every record is stored under the
key it reports. Where a scrub finds nothing but some record is not, a reindex ends with the first
such record, in key order, and changes nothing either. -/
theorem reindex_unchanged_iff (hvalid : b.config.validate = .ok ()) (hc : c.Quiet)
    (hstored : c.store.table? b.name = some (.primary stored))
    (htables : ∀ index ∈ b.indices, ∃ entries, c.store.table? index = some (.index entries)) :
    ((∃ c', b.reindex c = .ok () c' ∧ c'.store = c.store) ↔
      (∃ report c', b.verify c = .ok report c' ∧ report.consistent = true) ∧
        b.codec.InPlace stored.toList) ∧
    ((∃ report c', b.verify c = .ok report c' ∧ report.consistent = true) →
      ¬ b.codec.InPlace stored.toList →
      ∃ before row after record, stored.toList = before ++ row :: after ∧
        b.codec.InPlace before ∧ b.codec.decode row.2 = .ok record ∧ Record.key record ≠ row.1 ∧
        ∃ c', b.reindex c = .error (.failed (.corrupted (.misfiled row.1 (Record.key record)))) c' ∧
          c'.store = c.store) := by
  have hindex : ∀ index ∈ b.indices, c.store.OfKind .index index :=
    fun index hmem => Store.ofKind_of_index (htables index hmem)
  have hscrub := b.verify_consistent_iff hc hstored hindex
  refine ⟨?_, fun hconsistent hplace => ?_⟩
  · rw [b.reindex_unchanged_iff_legible hvalid hc hstored, hscrub]
    constructor
    · rintro ⟨records, hlegible, hentries⟩
      exact ⟨⟨records, hlegible.decode, hlegible.fits, hentries⟩, hlegible.inPlace⟩
    · rintro ⟨⟨records, hdecode, hfits, hentries⟩, hplace⟩
      exact ⟨records, hplace.legible hdecode hfits, hentries⟩
  · obtain ⟨records, hdecode, hfits, -⟩ := hscrub.mp hconsistent
    have hread : ∀ row ∈ stored.toList, ∃ record, b.codec.decode row.2 = .ok record ∧
        Index.Fits b.indices record := by
      intro row hrow
      have hmem : b.codec.decode row.2 ∈ records.map (Except.ok (ε := CodecError)) :=
        hdecode ▸ List.mem_map_of_mem (f := fun row => b.codec.decode row.2) hrow
      obtain ⟨record, hrecord, heq⟩ := List.mem_map.mp hmem
      exact ⟨record, heq.symm, hfits record hrecord⟩
    have hrun := b.reindex_run hc (Store.ofKind_of_table? hstored)
      (b.config.disjoint_of_validate hvalid)
    rw [Store.rowsIn_eq hstored] at hrun
    cases hfault : stored.toList.findSome? (b.codec.fault? b.indices) with
    | none =>
      rw [hfault] at hrun
      obtain ⟨records', -, hlegible, -⟩ := hrun
      exact absurd hlegible.inPlace hplace
    | some e =>
      rw [hfault] at hrun
      obtain ⟨c', hstop, hstore⟩ := hrun
      obtain ⟨before, row, after, hlist, hrow, hbefore⟩ := List.findSome?_eq_some_iff.mp hfault
      obtain ⟨record, hrecord, hkey, rfl⟩ :=
        Codec.misfiled_of_fault (hread row (hlist ▸ by simp)) hrow
      refine ⟨before, row, after, record, hlist, ?_, hrecord, hkey, c', hstop, hstore⟩
      intro r hr record' hrecord'
      obtain ⟨record'', hdecode'', hkey'', -⟩ := (Codec.fault?_eq_none_iff r).mp (hbefore r hr)
      rw [hrecord'] at hdecode''
      cases hdecode''
      exact hkey''

end Bucket

/-! ### A word in the place of another -/

/-- Two words, one of them stored under a key that it does not report, and the index of both. -/
def Store.misplaced : Store :=
  (Store.empty.put "words" (.primary (.ofList [([7], [7]), ([9], [7, 8])]))).put "initial"
    (.index (Index.expected ([⟨[7]⟩, ⟨[7, 8]⟩] : List Word) "initial"))

namespace Bucket

theorem table?_misplaced : Store.misplaced.table? "words"
      = some (.primary (.ofList [([7], [7]), ([9], [7, 8])])) ∧
    Store.misplaced.table? "initial"
      = some (.index (Index.expected ([⟨[7]⟩, ⟨[7, 8]⟩] : List Word) "initial")) := by
  simp [Store.misplaced, Store.table?_put]

theorem verify_misplaced :
    let b : Bucket Word := ⟨⟨"words", ["initial"]⟩, .words, ⟨none, [], [], 0⟩⟩
    let c : Context Unit := Call.quiet .misplaced [] ()
    ∃ report c', b.verify c = .ok report c' ∧ report.consistent = true := by
  intro b c
  obtain ⟨hwords, hinitial⟩ := table?_misplaced
  have hindex : ∀ index ∈ b.indices, c.store.table? index
      = some (.index (Index.expected ([⟨[7]⟩, ⟨[7, 8]⟩] : List Word) index)) := by
    intro index hmem
    obtain rfl := List.mem_singleton.mp hmem
    exact hinitial
  exact (b.verify_consistent_iff (Context.quiet_quiet _ _ _) hwords fun index hmem =>
    Store.ofKind_of_table? (hindex index hmem)).mpr ⟨[⟨[7]⟩, ⟨[7, 8]⟩], rfl, by decide, hindex⟩

theorem reindex_unchanged_iff_misplaced :
    let b : Bucket Word := ⟨⟨"words", ["initial"]⟩, .words, ⟨none, [], [], 0⟩⟩
    let stored : OrderedMap Bytes Bytes := .ofList [([7], [7]), ([9], [7, 8])]
    let c : Context Unit := Call.quiet .misplaced [] ()
    b.config.validate = .ok () ∧ c.Quiet ∧ c.store.table? b.name = some (.primary stored) ∧
      (∀ index ∈ b.indices, ∃ entries, c.store.table? index = some (.index entries)) ∧
      (∃ report c', b.verify c = .ok report c' ∧ report.consistent = true) ∧
      ¬ b.codec.InPlace stored.toList ∧
      ∃ c', b.reindex c = .error (.failed (.corrupted (.misfiled [9] [7, 8]))) c' ∧
        c'.store = c.store := by
  intro b stored c
  obtain ⟨hwords, hinitial⟩ := table?_misplaced
  have htables : ∀ index ∈ b.indices, ∃ entries, c.store.table? index = some (.index entries) := by
    intro index hindex
    obtain rfl := List.mem_singleton.mp hindex
    exact ⟨_, hinitial⟩
  have hplace : ¬ b.codec.InPlace stored.toList := fun h =>
    absurd (h ([9], [7, 8]) (by decide) ⟨[7, 8]⟩ rfl) (by decide)
  obtain ⟨-, hmisfiled⟩ :=
    b.reindex_unchanged_iff rfl (Context.quiet_quiet _ _ _) hwords htables
  obtain ⟨before, row, after, record, hlist, -, hdecode, hkey, c', hstop, hstore⟩ :=
    hmisfiled verify_misplaced hplace
  have hrow : row ∈ stored.toList := hlist ▸ by simp
  cases hdecode
  refine ⟨rfl, Context.quiet_quiet _ _ _, hwords, htables, verify_misplaced, hplace, c', ?_, hstore⟩
  -- The first word is stored as itself, so the second is the one that is named.
  rcases List.mem_cons.mp (show row ∈ [([7], [7]), ([9], [7, 8])] from hrow) with rfl | hrow
  · exact absurd rfl hkey
  · obtain rfl := List.mem_singleton.mp hrow
    exact hstop

/-- A scrub that finds nothing where a reindex does not even succeed, though all tables are
there. -/
theorem verify_consistent_without_reindex :
    let b : Bucket Word := ⟨⟨"words", ["initial"]⟩, .words, ⟨none, [], [], 0⟩⟩
    let c : Context Unit := Call.quiet .misplaced [] ()
    b.config.validate = .ok () ∧ c.Quiet ∧
      (∃ stored, c.store.table? b.name = some (.primary stored)) ∧
      (∀ index ∈ b.indices, ∃ entries, c.store.table? index = some (.index entries)) ∧
      (∃ report c', b.verify c = .ok report c' ∧ report.consistent = true) ∧
      ¬ ∃ c', b.reindex c = .ok () c' ∧ c'.store = c.store := by
  intro b c
  obtain ⟨hwords, hinitial⟩ := table?_misplaced
  refine ⟨rfl, Context.quiet_quiet _ _ _, ⟨_, hwords⟩, fun index hindex => ?_, verify_misplaced,
    fun hunchanged => ?_⟩
  · obtain rfl := List.mem_singleton.mp hindex
    exact ⟨_, hinitial⟩
  · obtain ⟨records, hlegible, -⟩ := (b.reindex_unchanged_iff_legible rfl
      (Context.quiet_quiet _ _ _) hwords).mp hunchanged
    exact absurd (hlegible.inPlace ([9], [7, 8]) (by decide) ⟨[7, 8]⟩ rfl) (by decide)

end Bucket

end IndexedStore
