import IndexedStore.Proofs.Tables
import IndexedStore.Proofs.Updating

set_option autoImplicit false

/-! # Rebuilding on contents

A rebuild drops the tables of indices, creates them anew and files every stored record. So what it
makes of the contents depends on the rows only (`Contents.rebuild`): it does not matter what the
tables held before, whether they were there, and of what kind they were. -/

namespace IndexedStore

variable {R σ : Type} [Record R]

/-! ## The function -/

namespace Contents

/-- The contents with the record of a row filed, which must report the key of the row. -/
def refileOne (codec : Codec R) (indices : List String) (h : Contents) (row : Bytes × Bytes) :
    Except BucketError Contents :=
  match codec.decode row.2 with
  | .error e => .error (.codec e)
  | .ok record =>
    if Record.key record ≠ row.1 then .error (.corrupted (.misfiled row.1 (Record.key record)))
    else h.file indices record

/-- The rows, and what is filed of them in the indices. -/
def rebuild (codec : Codec R) (indices : List String) (rows : OrderedMap Bytes Bytes) :
    Except BucketError Contents :=
  rows.toList.foldlM (refileOne codec indices) ⟨rows, fun _ => .empty⟩

end Contents

/-! ## Rows that can be filed -/

namespace Codec

/-- What keeps a row from being filed, if anything does: it is not read, or its record reports
another key, or the record has a value that is too long. -/
def fault? (codec : Codec R) (indices : List String) (row : Bytes × Bytes) : Option BucketError :=
  match codec.decode row.2 with
  | .error e => some (.codec e)
  | .ok record =>
    if Record.key record ≠ row.1 then some (.corrupted (.misfiled row.1 (Record.key record)))
    else (Index.oversizedIn? indices record).map .oversized

/-- Rows read as records, each of which reports the key of its row and fits the indices. -/
structure Legible (codec : Codec R) (indices : List String) (rows : List (Bytes × Bytes))
    (records : List R) : Prop where
  decode : rows.map (fun row => codec.decode row.2) = records.map .ok
  keys : records.map Record.key = rows.map (·.1)
  fits : ∀ record ∈ records, Index.Fits indices record

variable {codec : Codec R} {indices : List String}

theorem fault?_eq_none_iff (row : Bytes × Bytes) : codec.fault? indices row = none ↔
    ∃ record, codec.decode row.2 = .ok record ∧ Record.key record = row.1 ∧
      Index.Fits indices record := by
  unfold fault?
  cases hdecode : codec.decode row.2 with
  | error e => simp
  | ok record =>
    simp only [Except.ok.injEq, exists_eq_left']
    by_cases hkey : Record.key record = row.1
    · rw [if_neg (not_not_intro hkey), Option.map_eq_none_iff, Index.oversizedIn?_eq_none_iff]
      exact (and_iff_right hkey).symm
    · rw [if_pos hkey]
      simp [hkey]

theorem legible_nil : codec.Legible indices [] ([] : List R) :=
  ⟨rfl, rfl, fun record hrecord => by cases hrecord⟩

theorem Legible.cons {row : Bytes × Bytes} {rows : List (Bytes × Bytes)} {record : R}
    {records : List R} (hdecode : codec.decode row.2 = .ok record)
    (hkey : Record.key record = row.1) (hfits : Index.Fits indices record)
    (h : codec.Legible indices rows records) :
    codec.Legible indices (row :: rows) (record :: records) :=
  ⟨by rw [List.map_cons, List.map_cons, hdecode, h.decode],
    by rw [List.map_cons, List.map_cons, hkey, h.keys], List.forall_mem_cons.mpr ⟨hfits, h.fits⟩⟩

/-- Rows read as the records of one list only. -/
theorem Legible.eq {rows : List (Bytes × Bytes)} {records records' : List R}
    (h : codec.Legible indices rows records)
    (hdecode : rows.map (fun row => codec.decode row.2) = records'.map .ok) : records = records' :=
  (List.map_inj_right fun _ _ => Except.ok.inj).mp (h.decode.symm.trans hdecode)

theorem Legible.subset {rows : List (Bytes × Bytes)} {records : List R} {chosen : List String}
    (h : codec.Legible indices rows records) (hsub : ∀ index ∈ chosen, index ∈ indices) :
    codec.Legible chosen rows records :=
  ⟨h.decode, h.keys, fun record hrecord index hindex =>
    h.fits record hrecord index (hsub index hindex)⟩

/-- Nothing is wrong with legible rows. -/
theorem Legible.fault?_eq_none {rows : List (Bytes × Bytes)} {records : List R}
    (h : codec.Legible indices rows records) : ∀ row ∈ rows, codec.fault? indices row = none := by
  induction rows generalizing records with
  | nil => exact fun row hrow => by cases hrow
  | cons row rest ih =>
    cases records with
    | nil => cases h.decode
    | cons record records =>
      have hdecode := h.decode
      have hkeys := h.keys
      rw [List.map_cons, List.map_cons, List.cons.injEq] at hdecode hkeys
      have hfits := List.forall_mem_cons.mp h.fits
      exact List.forall_mem_cons.mpr
        ⟨(fault?_eq_none_iff row).mpr ⟨record, hdecode.1, hkeys.1, hfits.1⟩,
          ih ⟨hdecode.2, hkeys.2, hfits.2⟩⟩

end Codec

namespace Contents

variable {codec : Codec R} {indices : List String}

theorem refileOne_of_fault {row : Bytes × Bytes} {e : BucketError}
    (hfault : codec.fault? indices row = some e) (h : Contents) :
    refileOne codec indices h row = .error e := by
  unfold Codec.fault? at hfault
  unfold refileOne
  cases hdecode : codec.decode row.2 with
  | error fault =>
    rw [hdecode] at hfault
    cases hfault
    rfl
  | ok record =>
    rw [hdecode] at hfault
    dsimp only at hfault ⊢
    split at hfault
    · next hkey =>
      cases hfault
      rw [if_pos hkey]
    · next hkey =>
      obtain ⟨value, hvalue, rfl⟩ := Option.map_eq_some_iff.mp hfault
      rw [if_neg hkey, file, hvalue]

/-- **Filing rows one by one** ends at the first that cannot be filed, and otherwise adds what is
expected of all their records. -/
theorem refileAll_eq (codec : Codec R) (hdistinct : indices.Nodup)
    (rows : List (Bytes × Bytes)) (h : Contents) :
    match rows.findSome? (codec.fault? indices) with
    | some e => rows.foldlM (refileOne codec indices) h = .error e
    | none => ∃ records h', codec.Legible indices rows records ∧
        rows.foldlM (refileOne codec indices) h = .ok h' ∧ h'.rows = h.rows ∧
        ∀ index ∈ indices,
          h'.entries index = (h.entries index).union (Index.expected records index) := by
  induction rows generalizing h with
  | nil => exact ⟨[], h, Codec.legible_nil, rfl, rfl, fun index _ => rfl⟩
  | cons row rest ih =>
    rw [List.findSome?_cons, List.foldlM_cons]
    cases hfault : codec.fault? indices row with
    | some e =>
      rw [refileOne_of_fault hfault]
      rfl
    | none =>
      obtain ⟨record, hdecode, hkey, hfits⟩ := (Codec.fault?_eq_none_iff row).mp hfault
      have hfirst : refileOne codec indices h row
          = .ok (h.editEach (fun index t => t.union (Index.expected [record] index)) indices) := by
        rw [refileOne, hdecode]
        dsimp only
        rw [if_neg (not_not_intro hkey), file_of_fits hfits]
      have hrest := ih (h.editEach (fun index t => t.union (Index.expected [record] index)) indices)
      rw [hfirst]
      dsimp only
      cases hlater : rest.findSome? (codec.fault? indices) with
      | some e =>
        rw [hlater] at hrest
        exact hrest
      | none =>
        rw [hlater] at hrest
        obtain ⟨records, h', hlegible, hrun, hrows, hentries⟩ := hrest
        refine ⟨record :: records, h', hlegible.cons hdecode hkey hfits, hrun,
          by rw [hrows, rows_editEach], fun index hindex => ?_⟩
        rw [hentries index hindex, entries_editEach _ hdistinct, if_pos hindex]
        refine OrderedMap.ext_contains fun e => ?_
        rw [OrderedMap.contains_union, OrderedMap.contains_union, OrderedMap.contains_union,
          Index.contains_expected_cons record records, or_assoc]

/-- **A rebuild** ends with the fault of the first row that has one, and otherwise files what is
expected of all records. -/
theorem rebuild_eq (codec : Codec R) (hdistinct : indices.Nodup) (rows : OrderedMap Bytes Bytes) :
    match rows.toList.findSome? (codec.fault? indices) with
    | some e => rebuild codec indices rows = .error e
    | none => ∃ records h, codec.Legible indices rows.toList records ∧
        rebuild codec indices rows = .ok h ∧ h.rows = rows ∧
        ∀ index ∈ indices, h.entries index = Index.expected records index := by
  have hall := refileAll_eq codec hdistinct rows.toList ⟨rows, fun _ => .empty⟩
  cases hfault : rows.toList.findSome? (codec.fault? indices) with
  | some e =>
    rw [hfault] at hall
    exact hall
  | none =>
    rw [hfault] at hall
    obtain ⟨records, h, hlegible, hrun, hrows, hentries⟩ := hall
    refine ⟨records, h, hlegible, hrun, hrows, fun index hindex => ?_⟩
    rw [hentries index hindex]
    refine OrderedMap.ext_contains fun e => ?_
    rw [OrderedMap.contains_union, or_iff_right (OrderedMap.not_contains_empty e)]

/-- Legible rows are rebuilt. -/
theorem rebuild_of_legible (hdistinct : indices.Nodup) {rows : OrderedMap Bytes Bytes}
    {records : List R} (hlegible : codec.Legible indices rows.toList records) :
    ∃ h, rebuild codec indices rows = .ok h ∧ h.rows = rows ∧
      ∀ index ∈ indices, h.entries index = Index.expected records index := by
  have hnone : rows.toList.findSome? (codec.fault? indices) = none :=
    List.findSome?_eq_none_iff.mpr hlegible.fault?_eq_none
  have heq := rebuild_eq codec hdistinct rows
  rw [hnone] at heq
  obtain ⟨records', h, hlegible', hrun, hrows, hentries⟩ := heq
  rw [hlegible'.eq hlegible.decode] at hentries
  exact ⟨h, hrun, hrows, hentries⟩

/-- Rows that are rebuilt are legible. -/
theorem legible_of_rebuild (hdistinct : indices.Nodup) {rows : OrderedMap Bytes Bytes}
    {h : Contents} (hrebuild : rebuild codec indices rows = .ok h) :
    ∃ records, codec.Legible indices rows.toList records ∧ h.rows = rows ∧
      ∀ index ∈ indices, h.entries index = Index.expected records index := by
  have heq := rebuild_eq codec hdistinct rows
  cases hfault : rows.toList.findSome? (codec.fault? indices) with
  | some e =>
    rw [hfault, hrebuild] at heq
    cases heq
  | none =>
    rw [hfault] at heq
    obtain ⟨records, h', hlegible, hrun, hrows, hentries⟩ := heq
    rw [hrebuild] at hrun
    cases hrun
    exact ⟨records, hlegible, hrows, hentries⟩

end Contents

/-! ## The calls -/

/-- What is placed does not depend on index tables that were dropped. -/
theorem Store.place_dropEach (s : Store) (config : BucketConfig) (h : Contents) :
    (config.indices.foldl Store.drop s).place config h = s.place config h := by
  refine ext_table? fun name => ?_
  rw [table?_place, table?_place, table?_dropEach]
  split
  · rfl
  · split <;> rfl

theorem Store.place_opened (s : Store) (config : BucketConfig) (h : Contents) :
    (s.opened .primary config.name).place config h = s.place config h := by
  refine ext_table? fun name => ?_
  rw [table?_place, table?_place]
  by_cases hname : name = config.name
  · rw [if_pos hname, if_pos hname]
  · rw [table?_opened, if_neg hname, if_neg hname, if_neg hname]

theorem Store.putEach_empty_eq {s : Store} {config : BucketConfig}
    {stored : OrderedMap Bytes Bytes} (hprimary : s.table? config.name = some (.primary stored))
    (hname : config.name ∉ config.indices) :
    config.indices.foldl (fun s i => s.put i (.index .empty)) s
      = s.place config ⟨stored, fun _ => .empty⟩ := by
  refine ext_table? fun name => ?_
  rw [table?_putEach fun _ => .index .empty, table?_place]
  by_cases hindex : name ∈ config.indices
  · have hne : name ≠ config.name := fun he => hname (he ▸ hindex)
    rw [if_pos hindex, if_neg hne]
  · rw [if_neg hindex]
    split
    · next he => rw [he, hprimary]
    · rfl

namespace Call

variable {c : Context σ} {config : BucketConfig} {h : Contents}

/-- Tables that are absent are created empty. -/
theorem createIndices_ok {indices : List String} (hdistinct : indices.Nodup) {c : Context σ}
    (habsent : ∀ index ∈ indices, c.store.table? index = none) :
    createIndices indices c = .ok ()
      { c with store := (indices.foldl (fun s i => s.put i (.index .empty)) c.store) } := by
  induction indices generalizing c with
  | nil => rfl
  | cons index rest ih =>
    obtain ⟨hindex, hrest⟩ := List.nodup_cons.mp hdistinct
    have hnone : c.store.table? index = none := habsent index List.mem_cons_self
    have hcreate : openTable .index index c
        = .ok () { c with store := c.store.put index (.index .empty) } := by
      refine change_run ?_
      simp only [Store.ensure, hnone]
      rfl
    rw [createIndices, bind_ok hcreate]
    refine ih hrest fun i hi => ?_
    have hne : i ≠ index := fun he => hindex (he ▸ hi)
    rw [Store.table?_put, if_neg hne]
    exact habsent i (List.mem_cons_of_mem _ hi)

theorem refile_makes (hc : c.Quiet) (hs : c.store.Holds config h)
    (hname : config.name ∉ config.indices) (codec : Codec R) (rows : List (Bytes × Bytes)) :
    Makes (refile codec config.indices rows) c config
      (rows.foldlM (Contents.refileOne codec config.indices) h) := by
  induction rows generalizing c h with
  | nil => exact .pure hs ()
  | cons row rest ih =>
    obtain ⟨key, bytes⟩ := row
    rw [List.foldlM_cons, Contents.refileOne]
    refine .after (look_ok hc) ?_
    cases hdecode : codec.decode bytes with
    | error e => exact .failed (by rw [decode_eq hc, hdecode]; rfl)
    | ok record =>
      refine .after (decode_ok hc hdecode) ?_
      by_cases hkey : Record.key record ≠ key
      · dsimp only
        rw [if_pos hkey, if_pos hkey]
        exact .failed (fail_run _ c)
      · dsimp only
        rw [if_neg hkey, if_neg hkey]
        exact .bind (fileRecord_makes hc hs hname record fun _ hi => hi) fun _ h' =>
          ih (hc.setStore _) (Store.holds_place hname _ _)

/-- A rebuild files the rows in tables that hold nothing else, whatever the index tables are. A
primary table that is absent is created empty. -/
theorem rebuild_eq_refile (hkind : c.store.OfKind .primary config.name)
    (hname : config.name ∉ config.indices) (hdistinct : config.indices.Nodup) (codec : Codec R) :
    rebuild config.name codec config.indices c
      = (refile codec config.indices (c.store.rowsIn config.name).toList >>= fun _ =>
        pure (c.store.rowsIn config.name).size)
        { c with store := c.store.place config ⟨c.store.rowsIn config.name, fun _ => .empty⟩ } := by
  have hsame : (config.indices.foldl Store.drop c.store).table? config.name
      = c.store.table? config.name := by
    rw [Store.table?_dropEach, if_neg hname]
  have hdropped : (config.indices.foldl Store.drop c.store).OfKind .primary config.name :=
    fun t ht => hkind t (hsame ▸ ht)
  have hopened := Store.table?_opened_primary hdropped
  have hrows : (config.indices.foldl Store.drop c.store).rowsIn config.name
      = c.store.rowsIn config.name := by
    simp only [Store.rowsIn, hsame]
  rw [hrows] at hopened
  have habsent : ∀ index ∈ config.indices, ((config.indices.foldl Store.drop c.store).opened
      .primary config.name).table? index = none := by
    intro index hindex
    have hne : index ≠ config.name := fun he => hname (he ▸ hindex)
    rw [Store.table?_opened, if_neg hne, Store.table?_dropEach, if_pos hindex]
  -- From the tables created anew on, the call works on contents with no entries.
  have hempty : config.indices.foldl (fun s i => s.put i (.index .empty))
        ((config.indices.foldl Store.drop c.store).opened .primary config.name)
      = c.store.place config ⟨c.store.rowsIn config.name, fun _ => .empty⟩ := by
    rw [Store.putEach_empty_eq hopened hname, Store.place_opened, Store.place_dropEach]
  have hholds := Store.holds_place hname c.store ⟨c.store.rowsIn config.name, fun _ => .empty⟩
  have hcreate : createIndices config.indices
        { c with store := (config.indices.foldl Store.drop c.store).opened .primary config.name }
      = .ok ()
        { c with store := c.store.place config ⟨c.store.rowsIn config.name, fun _ => .empty⟩ } := by
    rw [← hempty]
    exact createIndices_ok hdistinct habsent
  exact (bind_ok (edit_run _ c)).trans ((bind_ok (openTable_run hdropped)).trans
    ((bind_ok hcreate).trans (bind_ok (rows_ok hholds.primary))))

/-- **Rebuilding** makes of the rows what `Contents.rebuild` says, and counts the rows. -/
theorem rebuild_run (hc : c.Quiet) (hkind : c.store.OfKind .primary config.name)
    (hname : config.name ∉ config.indices) (hdistinct : config.indices.Nodup) (codec : Codec R) :
    match Contents.rebuild codec config.indices (c.store.rowsIn config.name) with
    | .ok h => rebuild config.name codec config.indices c
        = .ok (c.store.rowsIn config.name).size { c with store := c.store.place config h }
    | .error e => ∃ s, rebuild config.name codec config.indices c
        = .error (.failed e) { c with store := s } := by
  have hrun := rebuild_eq_refile hkind hname hdistinct codec
  have hholds := Store.holds_place hname c.store ⟨c.store.rowsIn config.name, fun _ => .empty⟩
  have hmakes := refile_makes (c := { c with store := c.store.place config _ }) (hc.setStore _)
    hholds hname codec (c.store.rowsIn config.name).toList
  rw [Contents.rebuild]
  cases hrefile : (c.store.rowsIn config.name).toList.foldlM
      (Contents.refileOne codec config.indices) ⟨c.store.rowsIn config.name, fun _ => .empty⟩ with
  | error e =>
    rw [hrefile] at hmakes
    obtain ⟨s, hstop⟩ := hmakes
    exact ⟨s, hrun.trans (bind_error hstop)⟩
  | ok h =>
    rw [hrefile] at hmakes
    obtain ⟨⟨⟩, hend⟩ := hmakes
    rw [Store.place_place] at hend
    exact hrun.trans (bind_ok hend)

/-- Rebuilding, as far as the contents go. -/
theorem rebuild_makes (hc : c.Quiet) (hkind : c.store.OfKind .primary config.name)
    (hname : config.name ∉ config.indices) (hdistinct : config.indices.Nodup) (codec : Codec R) :
    Makes (rebuild config.name codec config.indices) c config
      (Contents.rebuild codec config.indices (c.store.rowsIn config.name)) := by
  have hrun := rebuild_run hc hkind hname hdistinct codec
  cases hrebuild : Contents.rebuild codec config.indices (c.store.rowsIn config.name) with
  | error e => rwa [hrebuild] at hrun
  | ok h =>
    rw [hrebuild] at hrun
    exact ⟨_, hrun⟩

end Call

/-- **Reindexing** makes of the rows what `Contents.rebuild` says. -/
theorem Bucket.reindex_writes (b : Bucket R) {c : Context σ} (hc : c.Quiet)
    (hkind : c.store.OfKind .primary b.name) (hname : b.name ∉ b.indices)
    (hdistinct : b.indices.Nodup) :
    Call.Writes b.reindex c b.config
      ((Contents.rebuild b.codec b.indices (c.store.rowsIn b.name)).mapError .failed) :=
  .after (Call.look_ok hc) (Call.Makes.writes hc (.looked hc
    (Call.rebuild_makes hc hkind hname hdistinct b.codec)) _)

/-! ## All calls that change a bucket -/

/-- The contents after a call that changes a bucket, in a context. -/
def Write.contents (b : Bucket R) (c : Context σ) (h : Contents) : Write σ R → Except Stop Contents
  | insert records => (h.insertAll b records).mapError .failed
  | update records mutator => h.update b records mutator c
  | delete keys => (h.deleteAll b keys).mapError .failed
  | reindex => (Contents.rebuild b.codec b.indices h.rows).mapError .failed

/-- **A call that changes a bucket** does what it makes of the contents of its tables. -/
theorem Write.call_writes (b : Bucket R) {c : Context σ} (hc : c.Quiet) {h : Contents}
    (hs : c.store.Holds b.config h) (hname : b.name ∉ b.indices) (hdistinct : b.indices.Nodup)
    {w : Write σ R} (hw : w.Mutators Mutator.Tame) :
    Call.Writes (w.call b) c b.config (w.contents b c h) := by
  cases w with
  | insert records => exact b.insert_writes hc hs hname records
  | update records mutator => exact b.update_writes hc hs hname records hw
  | delete keys => exact b.delete_writes hc hs hname keys
  | reindex =>
    have hreindex := b.reindex_writes hc (Store.ofKind_of_table? hs.primary) hname hdistinct
    have hrows : c.store.rowsIn b.name = h.rows := Store.rowsIn_eq hs.primary
    rwa [hrows] at hreindex

end IndexedStore
