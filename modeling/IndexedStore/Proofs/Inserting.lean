import IndexedStore.Proofs.Batches
import IndexedStore.Proofs.Opening
import IndexedStore.Record.Card

set_option autoImplicit false

/-! # What an insertion does

Whatever the tables hold, a batch is inserted just if all of its records can come in together
(`Contents.Admits`): no key is empty, taken or used twice, and no value is too long. A record does not
look at the batch, though, but at the primary table, into which the records before it have been put.
That is enough, for after some of the batch the table has the old rows and those of these records
and no others (`Contents.Gains`). So what stops the batch is what is wrong with the first record that
cannot come in after those before it (`Contents.refusal?`), and otherwise every table has gained what
the records call for (`Bucket.insert_exact`). -/

namespace IndexedStore

variable {R σ : Type} [Record R]

namespace Contents

/-! ## Records that can come in -/

/-- The records can be inserted together. -/
structure Admits (b : Bucket R) (h : Contents) (records : List R) : Prop where
  nonempty : ∀ record ∈ records, Record.key record ≠ []
  distinct : (records.map Record.key).Nodup
  fresh : ∀ record ∈ records, h.rows.contains (Record.key record) = false
  fits : ∀ record ∈ records, Index.Fits b.indices record

instance (b : Bucket R) (h : Contents) (records : List R) : Decidable (h.Admits b records) :=
  decidable_of_iff ((∀ record ∈ records, Record.key record ≠ []) ∧
    (records.map Record.key).Nodup ∧
    (∀ record ∈ records, h.rows.contains (Record.key record) = false) ∧
    ∀ record ∈ records, Index.Fits b.indices record)
    ⟨fun ⟨h₁, h₂, h₃, h₄⟩ => ⟨h₁, h₂, h₃, h₄⟩, fun ha => ⟨ha.1, ha.2, ha.3, ha.4⟩⟩

/-- What keeps a record from being inserted after others, if anything does. -/
def refusal? (b : Bucket R) (h : Contents) (before : List R) (record : R) : Option BucketError :=
  if Record.key record = [] then some (.invalidKey Bucket.emptyKeyReason)
  else if h.rows.contains (Record.key record) ∨ Record.key record ∈ before.map Record.key then
    some (.keyConflict (Record.key record))
  else (Index.oversizedIn? b.indices record).map .oversized

variable {b : Bucket R} {h : Contents}

theorem admits_nil : h.Admits b [] := by
  constructor <;> simp

theorem admits_append_singleton (before : List R) (record : R) :
    h.Admits b (before ++ [record]) ↔ h.Admits b before ∧ h.refusal? b before record = none := by
  have hnone : h.refusal? b before record = none ↔ Record.key record ≠ [] ∧
      (h.rows.contains (Record.key record) = false ∧
        Record.key record ∉ before.map Record.key) ∧ Index.Fits b.indices record := by
    rw [refusal?, ← Index.oversizedIn?_eq_none_iff]
    split
    · next hempty => simp [hempty]
    · next hkey =>
      split
      · next htaken => rcases htaken with htaken | htaken <;> simp [htaken]
      · next hfree => simpa [hkey] using fun _ => hfree
  rw [hnone]
  constructor
  · intro ha
    have hnodup := ha.distinct
    rw [List.map_append, List.map_singleton, List.nodup_append] at hnodup
    have hnonempty := List.forall_mem_append.mp ha.nonempty
    have hfresh := List.forall_mem_append.mp ha.fresh
    have hfits := List.forall_mem_append.mp ha.fits
    simp only [List.forall_mem_singleton] at hnonempty hfresh hfits
    exact ⟨⟨hnonempty.1, hnodup.1, hfresh.1, hfits.1⟩, hnonempty.2,
      ⟨hfresh.2, fun hmem => hnodup.2.2 _ hmem _ (List.mem_singleton_self _) rfl⟩, hfits.2⟩
  · rintro ⟨ha, hkey, ⟨hfresh, hnew⟩, hfits⟩
    refine ⟨?_, ?_, ?_, ?_⟩
    · exact List.forall_mem_append.mpr ⟨ha.nonempty, List.forall_mem_singleton.mpr hkey⟩
    · rw [List.map_append, List.map_singleton, List.nodup_append]
      refine ⟨ha.distinct, List.pairwise_singleton _ _, ?_⟩
      rintro k hk k' hk' rfl
      exact hnew (List.mem_singleton.mp hk' ▸ hk)
    · exact List.forall_mem_append.mpr ⟨ha.fresh, List.forall_mem_singleton.mpr hfresh⟩
    · exact List.forall_mem_append.mpr ⟨ha.fits, List.forall_mem_singleton.mpr hfits⟩

/-- Of records that can come in, those in front can. -/
theorem Admits.of_append {before after : List R} (ha : h.Admits b (before ++ after)) :
    h.Admits b before := by
  have hdistinct := ha.distinct
  rw [List.map_append] at hdistinct
  exact ⟨fun r hr => ha.nonempty r (List.mem_append_left _ hr), (List.nodup_append.mp hdistinct).1,
    fun r hr => ha.fresh r (List.mem_append_left _ hr),
    fun r hr => ha.fits r (List.mem_append_left _ hr)⟩

/-- Of records that can come in, none is refused. -/
theorem Admits.refusal?_eq_none {before after : List R} {record : R}
    (ha : h.Admits b (before ++ record :: after)) : h.refusal? b before record = none := by
  rw [List.append_cons] at ha
  exact ((admits_append_singleton before record).mp ha.of_append).2

/-! ## What is gained -/

/-- The contents have gained the rows and the entries of records, and nothing else. -/
structure Gains (b : Bucket R) (records : List R) (h h' : Contents) : Prop where
  /-- Each record is stored under its key. -/
  stored : ∀ record ∈ records, ∃ bytes, b.codec.encode record = .ok bytes ∧
    h'.rows.get? (Record.key record) = some bytes
  /-- All other rows are as before. -/
  kept : ∀ key, key ∉ records.map Record.key → h'.rows.get? key = h.rows.get? key
  /-- The old entries and those that the records call for. -/
  entries : ∀ index ∈ b.indices,
    h'.entries index = (h.entries index).union (Index.expected records index)

theorem Gains.nil (h : Contents) : Gains b [] h h := by
  refine ⟨fun record hrecord => (by cases hrecord), fun key _ => rfl, fun index _ => ?_⟩
  refine OrderedMap.ext_contains fun e => ?_
  simp [OrderedMap.contains_union, Index.expected_nil, OrderedMap.not_contains_empty]

variable {records : List R} {h' h₁ : Contents}

/-- The keys are the old ones and those of the records. -/
theorem Gains.contains_rows (hg : Gains b records h h₁) (key : Bytes) :
    h₁.rows.contains key = true ↔
      h.rows.contains key = true ∨ key ∈ records.map Record.key := by
  by_cases hkey : key ∈ records.map Record.key
  · obtain ⟨record, hrecord, rfl⟩ := List.mem_map.mp hkey
    obtain ⟨bytes, -, hrow⟩ := hg.stored record hrecord
    simp [OrderedMap.contains, hrow, hkey]
  · simp [OrderedMap.contains, hg.kept key hkey, hkey]

/-- One more record. -/
theorem Gains.insertOne (hdistinct : b.indices.Nodup) (hg : Gains b records h h₁) {record : R}
    (hrun : h₁.insertOne b record = .ok h') : Gains b (records ++ [record]) h h' := by
  obtain ⟨hfresh, bytes, hencode, hfile⟩ := of_insertOne hrun
  have hrows : h'.rows = h₁.rows.insert (Record.key record) bytes := by
    rw [eq_of_file hfile, rows_editEach]
  refine ⟨fun r hr => ?_, fun key hkey => ?_, fun index hindex => ?_⟩
  · rcases List.mem_append.mp hr with hr | hr
    · obtain ⟨bytes', hencode', hrow⟩ := hg.stored r hr
      -- The key is not that of the new record, which was not there.
      have hne : Record.key r ≠ Record.key record := by
        intro he
        rw [OrderedMap.contains, ← he, hrow] at hfresh
        cases hfresh
      exact ⟨bytes', hencode', by rw [hrows, OrderedMap.get?_insert, if_neg hne, hrow]⟩
    · obtain rfl := List.mem_singleton.mp hr
      exact ⟨bytes, hencode, by rw [hrows, OrderedMap.get?_insert, if_pos rfl]⟩
  · rw [List.map_append, List.map_singleton, List.mem_append, List.mem_singleton, not_or] at hkey
    rw [hrows, OrderedMap.get?_insert, if_neg hkey.2, hg.kept key hkey.1]
  · rw [eq_of_file hfile, entries_editEach _ hdistinct, if_pos hindex]
    show (h₁.entries index).union (Index.expected [record] index) = _
    rw [hg.entries index hindex]
    refine OrderedMap.ext_contains fun e => ?_
    simp only [OrderedMap.contains_union, Index.contains_expected_append, or_assoc]

/-! ## Batches -/

/-- After some of a batch, a record that is inserted could come in. -/
theorem Gains.refusal?_eq_none (hg : Gains b records h h₁) {record : R}
    (hrun : h₁.insertOne b record = .ok h') : h.refusal? b records record = none := by
  have hnonempty : Record.key record ≠ [] := by
    intro he
    simp [Contents.insertOne, he] at hrun
  obtain ⟨hfresh, bytes, -, hfile⟩ := of_insertOne hrun
  have htaken : ¬ (h.rows.contains (Record.key record) = true ∨
      Record.key record ∈ records.map Record.key) := by
    rw [← hg.contains_rows, hfresh]
    exact Bool.false_ne_true
  rw [refusal?, if_neg hnonempty, if_neg htaken,
    (Index.oversizedIn?_eq_none_iff b.indices record).mpr (fits_of_file hfile)]
  rfl

/-- After some of a batch, a record that has bytes and is not inserted could not come in. -/
theorem Gains.refusal?_eq_some (hg : Gains b records h h₁) {record : R} {e : BucketError}
    (hencode : ∃ bytes, b.codec.encode record = .ok bytes)
    (hrun : h₁.insertOne b record = .error e) : h.refusal? b records record = some e := by
  obtain ⟨bytes, hbytes⟩ := hencode
  rw [Contents.insertOne] at hrun
  rw [refusal?]
  split at hrun
  · next hempty =>
    cases hrun
    rw [if_pos (List.isEmpty_iff.mp hempty)]
  · next hnonempty =>
    rw [if_neg fun hempty => hnonempty (List.isEmpty_iff.mpr hempty)]
    split at hrun
    · next htaken =>
      cases hrun
      rw [if_pos ((hg.contains_rows _).mp htaken)]
    · next hfree =>
      rw [if_neg fun htaken => hfree ((hg.contains_rows _).mpr htaken)]
      rw [hbytes] at hrun
      dsimp only at hrun
      unfold file at hrun
      split at hrun
      · next value hvalue =>
        cases hrun
        rw [hvalue]
        rfl
      · cases hrun

/-- The rest of a batch, when the records before it are there. -/
theorem Gains.insertAll (hdistinct : b.indices.Nodup) {before rest : List R}
    (hadmits : h.Admits b before) (hg : Gains b before h h₁)
    (hrun : h₁.insertAll b rest = .ok h') :
    h.Admits b (before ++ rest) ∧ Gains b (before ++ rest) h h' := by
  induction rest generalizing before h₁ with
  | nil =>
    cases hrun
    rw [List.append_nil]
    exact ⟨hadmits, hg⟩
  | cons record rest ih =>
    rw [Contents.insertAll, List.foldlM_cons] at hrun
    obtain ⟨h₂, hone, hrest⟩ := exists_of_bind_eq_ok hrun
    have hmore := (admits_append_singleton before record).mpr ⟨hadmits, hg.refusal?_eq_none hone⟩
    rw [List.append_cons]
    exact ih hmore (hg.insertOne hdistinct hone) hrest

/-- **A batch that has been inserted** could come in, and is what the contents have gained. -/
theorem gains_of_insertAll (hdistinct : b.indices.Nodup) (hrun : h.insertAll b records = .ok h') :
    h.Admits b records ∧ Gains b records h h' :=
  (Gains.nil h).insertAll hdistinct admits_nil hrun

/-- **A batch that is not inserted** has a first record that could not come in. -/
theorem refused_of_insertAll (hdistinct : b.indices.Nodup)
    (hencode : ∀ record ∈ records, ∃ bytes, b.codec.encode record = .ok bytes) {e : BucketError}
    (hrun : h.insertAll b records = .error e) :
    ∃ before record after, records = before ++ record :: after ∧ h.Admits b before ∧
      h.refusal? b before record = some e := by
  obtain ⟨before, record, after, h₁, rfl, hbefore, hfails⟩ := exists_of_foldlM_eq_error hrun
  obtain ⟨hadmits, hgains⟩ := gains_of_insertAll hdistinct hbefore
  have hbytes := hencode record (List.mem_append_right _ List.mem_cons_self)
  exact ⟨before, record, after, rfl, hadmits, hgains.refusal?_eq_some hbytes hfails⟩

end Contents

/-! ## Calls -/

namespace Bucket

open Call

variable {b : Bucket R} {c : Context σ} {h : Contents}

/-- An insertion that succeeds has put in records that could come in together. -/
theorem of_insert (hd : b.config.Disjoint) (hc : c.Quiet) (hs : c.store.Holds b.config h)
    {records : List R} {c' : Context σ} (hrun : b.insert records c = .ok () c') :
    ∃ h', h.Admits b records ∧ Contents.Gains b records h h' ∧ c'.Quiet ∧
      c'.store = c.store.place b.config h' ∧ c'.store.Holds b.config h' := by
  obtain ⟨h', hmade, hquiet, hstore⟩ := (b.insert_writes hc hs hd.primary records).of_ok hrun
  obtain ⟨hadmits, hgains⟩ := Contents.gains_of_insertAll hd.distinct (of_mapError_ok hmade)
  exact ⟨h', hadmits, hgains, hquiet, hstore, hstore ▸ Store.holds_place hd.primary _ _⟩

/-- An insertion that does not succeed fails for the first record that could not come in. -/
theorem insert_refused (hd : b.config.Disjoint) (hc : c.Quiet) (hs : c.store.Holds b.config h)
    {records : List R} (hencode : ∀ record ∈ records, ∃ bytes, b.codec.encode record = .ok bytes)
    (hfails : ¬ ∃ c', b.insert records c = .ok () c') :
    ∃ before record after e c', records = before ++ record :: after ∧ h.Admits b before ∧
      h.refusal? b before record = some e ∧
      b.insert records c = .error (.failed e) c' ∧ c'.store = c.store := by
  have hwrites := b.insert_writes hc hs hd.primary records
  cases hmade : h.insertAll b records with
  | ok h' =>
    rw [hmade] at hwrites
    obtain ⟨c', hrun, -⟩ := hwrites
    exact absurd ⟨c', hrun⟩ hfails
  | error e =>
    rw [hmade] at hwrites
    obtain ⟨c', hrun, -, hstore⟩ := hwrites
    obtain ⟨before, record, after, hsplit, hadmits, hrefused⟩ :=
      Contents.refused_of_insertAll hd.distinct hencode hmade
    exact ⟨before, record, after, e, c', hsplit, hadmits, hrefused, hrun, hstore⟩

/-- **An insertion**, whatever the tables hold, succeeds just if the records can come in together; then
the tables have gained what the records call for. Otherwise it fails for what is wrong with the first
record that cannot come in after those before it, and no table changes. The records are those that
the codec can write. -/
theorem insert_exact (hvalid : b.config.validate = .ok ()) (hc : c.Quiet)
    (hs : c.store.Holds b.config h) {records : List R}
    (hencode : ∀ record ∈ records, ∃ bytes, b.codec.encode record = .ok bytes) :
    ((∃ c', b.insert records c = .ok () c') ↔ h.Admits b records) ∧
    (∀ c', b.insert records c = .ok () c' →
      ∃ h', c'.store = c.store.place b.config h' ∧ Contents.Gains b records h h') ∧
    (¬ h.Admits b records → ∃ before record after e c', records = before ++ record :: after ∧
      h.Admits b before ∧ h.refusal? b before record = some e ∧
      b.insert records c = .error (.failed e) c' ∧ c'.store = c.store) := by
  have hd := b.config.disjoint_of_validate hvalid
  have hadmits : ∀ c', b.insert records c = .ok () c' → h.Admits b records := by
    intro c' hrun
    obtain ⟨-, hadmits, -⟩ := of_insert hd hc hs hrun
    exact hadmits
  refine ⟨⟨fun ⟨c', hrun⟩ => hadmits c' hrun, fun ha => ?_⟩, fun c' hrun => ?_, fun hnot => ?_⟩
  · refine Classical.byContradiction fun hfails => ?_
    obtain ⟨before, record, after, e, -, rfl, -, hrefused, -⟩ :=
      insert_refused hd hc hs hencode hfails
    rw [ha.refusal?_eq_none] at hrefused
    cases hrefused
  · obtain ⟨h', -, hgains, -, hstore, -⟩ := of_insert hd hc hs hrun
    exact ⟨h', hstore, hgains⟩
  · exact insert_refused hd hc hs hencode fun ⟨c', hrun⟩ => hnot (hadmits c' hrun)

/-! ### Cards that come to a table with a row that is not read and an entry that is none -/

theorem insert_exact_damaged :
    let b : Bucket Card := ⟨⟨"cards", ["suit"]⟩, .cards, ⟨none, [], [], 0⟩⟩
    let h : Contents := ⟨.ofList [([7], [])], fun _ => .setOf [[129]]⟩
    let c : Context Unit := quiet (Store.empty.place b.config h) [] ()
    let cards : List Card := [⟨[8], 1⟩, ⟨[9], 1⟩]
    let twice : List Card := [⟨[8], 1⟩, ⟨[8], 2⟩, ⟨[7], 0⟩]
    b.config.validate = .ok () ∧ c.Quiet ∧ c.store.Holds b.config h ∧
      (∀ card ∈ cards ++ twice, ∃ bytes, b.codec.encode card = .ok bytes) ∧
      h.Admits b cards ∧ ¬ h.Admits b twice ∧
      (∃ c' h', b.insert cards c = .ok () c' ∧ c'.store = c.store.place b.config h' ∧
        Contents.Gains b cards h h') ∧
      ∃ before card after c', twice = before ++ card :: after ∧ h.Admits b before ∧
        h.refusal? b before card = some (.keyConflict [8]) ∧
        b.insert twice c = .error (.failed (.keyConflict [8])) c' ∧ c'.store = c.store := by
  intro b h c cards twice
  have hvalid : b.config.validate = .ok () := rfl
  have hc : c.Quiet := Context.quiet_quiet _ _ _
  have hs : c.store.Holds b.config h := Store.holds_place (by decide) _ _
  have hencode : ∀ card ∈ cards ++ twice, ∃ bytes, b.codec.encode card = .ok bytes :=
    fun _ _ => ⟨_, rfl⟩
  obtain ⟨hfirst, hsecond⟩ := List.forall_mem_append.mp hencode
  have hadmits : h.Admits b cards := by decide +kernel
  have hrefuses : ¬ h.Admits b twice := by decide +kernel
  obtain ⟨hiff, hgains, -⟩ := Bucket.insert_exact hvalid hc hs hfirst
  obtain ⟨c', hrun⟩ := hiff.mpr hadmits
  obtain ⟨h', hstore, hgained⟩ := hgains c' hrun
  obtain ⟨before, card, after, e, c'', hsplit, hbefore, hrefused, hstopped, hsame⟩ :=
    (Bucket.insert_exact hvalid hc hs hsecond).2.2 hrefuses
  obtain ⟨stop, hstop, hconflict⟩ := error_of_check (x := b.insert twice) (c := c)
    (· = .failed (.keyConflict [8])) (by decide +kernel)
  obtain rfl : e = .keyConflict [8] := by
    rw [hstopped, of_decide_eq_true hconflict] at hstop
    cases hstop
    rfl
  exact ⟨hvalid, hc, hs, hencode, hadmits, hrefuses, ⟨c', h', hrun, hstore, hgained⟩,
    before, card, after, c'', hsplit, hbefore, hrefused, hstopped, hsame⟩

end Bucket

end IndexedStore
