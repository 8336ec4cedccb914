import IndexedStore.Proofs.Agreement
import IndexedStore.Proofs.Narrowing
import IndexedStore.Proofs.Reconciling
import IndexedStore.Proofs.Simulation

set_option autoImplicit false

/-! # Handles that share a bucket

A bucket can be opened again while handles from before are still in use, and each of them maintains
the indices that it was opened with. An index is skipped when a bucket is opened if the last
descriptor names it and it has a table. That says nothing of the changes in between: one that was
made through a handle without the index has left its table as it was. So what is skipped is exact
where every change since it was last built was made through a handle that maintains it, and
otherwise it need not be (`Shared.exact_after_opening`). -/

namespace IndexedStore

variable {R σ : Type} [Record R]

/-! ## Runs -/

/-- The indices that are maintained by a call through a handle, of those that were built and
maintained before. -/
def Write.maintained (b : Bucket R) (kept : List String) : Write σ R → List String
  | insert _ | update _ _ | delete _ => b.indices.filter fun index => index ∈ kept
  | reindex => kept ++ b.indices

/-- From an empty store, a bucket of one name is opened any number of times with any indices, and
called through any of the handles. With the store go the handles, and the indices that were built
and, since they last were, maintained by each call. -/
inductive Shared (codec : Codec R) (name : String) :
    List (Bucket R) → List String → Store → Prop
  | start : Shared codec name [] [] .empty
  /-- The bucket is opened once more. -/
  | opened {σ : Type} {c c' : Context σ} {handles : List (Bucket R)} {kept indices : List String}
      {b : Bucket R} (before : Shared codec name handles kept c.store) (quiet : c.Quiet)
      (run : Call.openBucket ⟨name, indices⟩ codec c = .ok b c') :
      Shared codec name (b :: handles) (kept ++ b.reconciliation.rebuilt) c'.store
  /-- The bucket is not opened. -/
  | refused {σ : Type} {c c' : Context σ} {handles : List (Bucket R)} {kept indices : List String}
      {stop : Stop} (before : Shared codec name handles kept c.store)
      (run : Call.openBucket ⟨name, indices⟩ codec c = .error stop c') :
      Shared codec name handles kept c'.store
  /-- A call through a handle changes the bucket. -/
  | wrote {σ : Type} {c c' : Context σ} {handles : List (Bucket R)} {kept : List String}
      {b : Bucket R} {w : Write σ R} (before : Shared codec name handles kept c.store)
      (handle : b ∈ handles) (quiet : c.Quiet) (tame : w.Mutators Mutator.Tame)
      (run : w.call b c = .ok () c') :
      Shared codec name handles (w.maintained b kept) c'.store
  /-- A call through a handle fails. -/
  | failed {σ : Type} {c c' : Context σ} {handles : List (Bucket R)} {kept : List String}
      {b : Bucket R} {w : Write σ R} {stop : Stop}
      (before : Shared codec name handles kept c.store) (handle : b ∈ handles)
      (run : w.call b c = .error stop c') : Shared codec name handles kept c'.store

/-! ## Contents of a store -/

/-- The rows of a name, and the entries in all index tables. -/
def Store.contents (s : Store) (name : String) : Contents :=
  ⟨s.rowsIn name, s.entriesIn⟩

omit [Record R] in
/-- The tables of a bucket hold the contents of the store. -/
theorem Store.holds_contents {s : Store} {b : Bucket R} (hb : b.Present s) :
    s.Holds b.config (s.contents b.config.name) := by
  obtain ⟨rows, hrows⟩ := hb.rows
  refine ⟨?_, fun index hmem => ?_⟩
  · show _ = some (Table.primary (s.rowsIn b.name))
    rw [rowsIn_eq hrows]
    exact hrows
  · obtain ⟨entries, hentries⟩ := hb.index index hmem
    show _ = some (Table.index (s.entriesIn index))
    rw [entriesIn_eq hentries, hentries]

namespace Contents.Keeps

variable {codec : Codec R} {indices kept : List String} {h g : Contents} {m : RecordMap R}

/-- A map that is kept in some indices is kept in fewer. -/
theorem mono (hk : h.Keeps codec kept m) (hsub : ∀ index ∈ indices, index ∈ kept) :
    h.Keeps codec indices m := by
  refine ⟨hk.rows, fun index hindex => hk.entries index (hsub index hindex), hk.keyed, hk.nonempty,
    fun r hr => ?_⟩
  obtain ⟨hfits, hencode⟩ := (codec.accepts_iff kept r).mp (hk.accepted r hr)
  exact (codec.accepts_iff indices r).mpr
    ⟨fun index hindex => hfits index (hsub index hindex), hencode⟩

theorem of_agree (hk : h.Keeps codec indices m) (ha : g.Agree indices h) :
    g.Keeps codec indices m :=
  ⟨ha.rows ▸ hk.rows, fun index hindex => ha.entries index hindex ▸ hk.entries index hindex,
    hk.keyed, hk.nonempty, hk.accepted⟩

/-- A map is kept in more indices once these are built of its records, and all others are left as
they are. -/
theorem build (hk : h.Keeps codec kept m) (hrows : g.rows = h.rows)
    (hbuilt : ∀ index ∈ indices, (∀ r ∈ m.values, Index.Fits indices r) ∧
      g.entries index = Index.expected m.values index)
    (hleft : ∀ index ∈ kept, index ∉ indices → g.entries index = h.entries index) :
    g.Keeps codec (kept ++ indices) m := by
  refine ⟨hrows.trans hk.rows, fun index hindex => ?_, hk.keyed, hk.nonempty, fun r hr => ?_⟩
  · by_cases hmem : index ∈ indices
    · exact (hbuilt index hmem).2
    · have hkept := (List.mem_append.mp hindex).resolve_right hmem
      exact (hleft index hkept hmem).trans (hk.entries index hkept)
  · obtain ⟨hfits, hencode⟩ := (codec.accepts_iff kept r).mp (hk.accepted r hr)
    refine (codec.accepts_iff _ r).mpr ⟨fun index hindex => ?_, hencode⟩
    rcases List.mem_append.mp hindex with hmem | hmem
    · exact hfits index hmem
    · exact (hbuilt index hmem).1 r hr index hmem

/-- The rows are read as the records of the map. -/
theorem records_eq (hlawful : codec.Lawful) (hk : h.Keeps codec kept m) {records : List R}
    (hlegible : codec.Legible indices h.rows.toList records) : records = m.values := by
  have hdecode := Contents.decode_rows (hk.recovers hlawful)
  rw [← hk.rows] at hdecode
  exact hlegible.eq hdecode

end Contents.Keeps

/-- **A call that succeeds** leaves exact what was exact and the handle maintains, whatever the
other indices of the handle hold. -/
theorem Write.keeps_maintained {b : Bucket R} (hlawful : b.codec.Lawful)
    (hdistinct : b.indices.Nodup) {h h' : Contents} {kept : List String} {m : RecordMap R}
    (hk : h.Keeps b.codec kept m) {c : Context σ} {w : Write σ R}
    (hrun : w.contents b c h = .ok h') :
    ∃ m', h'.Keeps b.codec (b.indices.filter fun index => index ∈ kept) m' := by
  -- The same call on a bucket that has only these indices goes as it goes on a map.
  let narrow := b.withIndices (b.indices.filter fun index => index ∈ kept)
  have hsub := List.filter_sublist (p := fun index => decide (index ∈ kept)) (l := b.indices)
  have hnarrow : h.Keeps narrow.codec narrow.indices m :=
    hk.mono fun index hindex => of_decide_eq_true (List.mem_filter.mp hindex).2
  obtain ⟨g, hsame, hagree⟩ := w.narrow_agree b hdistinct hsub (⟨rfl, fun _ _ => rfl⟩ :
    h.Agree _ h) c h' hrun
  have hnodup : narrow.indices.Nodup := hsub.nodup hdistinct
  have htracks := Write.tracks (b := narrow) (hnarrow.recovers hlawful) hnodup hnarrow c w
  rw [hsame] at htracks
  cases hmap : w.onMap? (narrow.codec.accepts narrow.indices) c m with
  | none =>
    rw [hmap] at htracks
    exact htracks.elim
  | some m' =>
    rw [hmap] at htracks
    exact ⟨m', htracks.of_agree hagree⟩

/-! ## What is exact -/

/-- A handle of a bucket of a name, whose tables are there. -/
structure Bucket.Standing (b : Bucket R) (codec : Codec R) (name : String) (s : Store) : Prop where
  named : b.config.name = name
  encoded : b.codec = codec
  disjoint : b.config.Disjoint
  present : b.Present s

/-- All handles have their tables, and the indices that were maintained hold what the stored records
call for. -/
structure Shared.Sound (codec : Codec R) (name : String) (handles : List (Bucket R))
    (kept : List String) (s : Store) : Prop where
  /-- Every handle has its tables. -/
  handles : ∀ b ∈ handles, b.Standing codec name s
  /-- There is no table but the primary, the metadata and index tables. -/
  index : ∀ other, other ≠ name → other ≠ name ++ metadataSuffix → s.OfKind .index other
  /-- No maintained index is named like the primary or the metadata table. -/
  own : ∀ index ∈ kept, index ≠ name ∧ index ≠ name ++ metadataSuffix
  /-- The maintained indices are exact. -/
  keeps : ∃ m, (s.contents name).Keeps codec kept m

namespace Bucket.Standing

variable {b : Bucket R} {codec : Codec R} {name : String} {s s' : Store}

omit [Record R]

/-- The indices are not named like the other tables. -/
theorem ne_of_mem (hb : b.Standing codec name s) {index : String} (hindex : index ∈ b.indices) :
    index ≠ name ∧ index ≠ name ++ metadataSuffix := by
  have hname := hb.named
  subst hname
  exact hb.disjoint.ne_of_mem hindex

theorem holds (hb : b.Standing codec name s) : s.Holds b.config (s.contents name) := by
  have hname := hb.named
  subst hname
  exact Store.holds_contents hb.present

/-- Where index tables stay index tables, and the rows are there. -/
theorem of_tables (hb : b.Standing codec name s)
    (hrows : ∃ rows, s'.table? name = some (.primary rows))
    (hindex : ∀ index, index ≠ name → index ≠ name ++ metadataSuffix →
      (∃ entries, s.table? index = some (.index entries)) →
        ∃ entries, s'.table? index = some (.index entries)) : b.Standing codec name s' := by
  refine ⟨hb.named, hb.encoded, hb.disjoint, ?_, fun index hmem =>
    hindex index (hb.ne_of_mem hmem).1 (hb.ne_of_mem hmem).2 (hb.present.index index hmem)⟩
  rw [Bucket.name, hb.named]
  exact hrows

end Bucket.Standing

namespace Shared.Sound

variable {codec : Codec R} {name : String} {handles : List (Bucket R)} {kept : List String}
  {s s' : Store}

theorem start : Shared.Sound codec name [] [] .empty := by
  refine ⟨by simp, fun other _ _ t ht => ?_, by simp, .empty, Contents.keeps_empty codec []⟩
  cases ht

/-- Tables that are brought in line have what is maintained, and what was built. -/
theorem keeps_inLine {config : BucketConfig} {built : List String} (hlawful : codec.Lawful)
    (hown : ∀ index ∈ kept, index ≠ config.name ∧ index ≠ config.metadataName) {m : RecordMap R}
    (hk : (s.contents config.name).Keeps codec kept m) (h : s'.InLine s config codec built) :
    (s'.contents config.name).Keeps codec (kept ++ built) m := by
  refine hk.build (Store.rowsIn_eq h.rows) (fun index hindex => ?_) fun index hindex hnot => ?_
  · obtain ⟨records, hlegible, htable⟩ := h.built index hindex
    obtain rfl := hk.records_eq hlawful hlegible
    exact ⟨hlegible.fits, Store.entriesIn_eq htable⟩
  · obtain ⟨hne, hmeta⟩ := hown index hindex
    exact Store.entriesIn_congr (h.other index hne hmeta hnot)

/-- **Opening once more.** -/
theorem opened (hlawful : codec.Lawful) (h : Shared.Sound codec name handles kept s) {b : Bucket R}
    (hname : b.config.name = name) (hcodec : b.codec = codec) (hd : b.config.Disjoint)
    (hsub : ∀ index ∈ b.reconciliation.rebuilt, index ∈ b.indices)
    (hin : s'.InLine s b.config codec b.reconciliation.rebuilt) :
    Shared.Sound codec name (b :: handles) (kept ++ b.reconciliation.rebuilt) s' := by
  subst hname
  have hbuilt : ∀ index ∈ b.reconciliation.rebuilt, ∃ entries,
      s'.table? index = some (.index entries) := fun index hindex => by
    obtain ⟨records, -, htable⟩ := hin.built index hindex
    exact ⟨_, htable⟩
  have hindex : ∀ other, other ≠ b.config.name → other ≠ b.config.name ++ metadataSuffix →
      s'.OfKind .index other := by
    intro other hother hmeta
    by_cases hmem : other ∈ b.reconciliation.rebuilt
    · obtain ⟨entries, hentries⟩ := hbuilt other hmem
      exact Store.ofKind_of_table? hentries
    · intro t ht
      exact h.index other hother hmeta t (hin.other other hother hmeta hmem ▸ ht)
  refine ⟨fun other hmem => ?_, hindex, fun index hmem => ?_, ?_⟩
  · rcases List.mem_cons.mp hmem with rfl | hmem
    · refine ⟨rfl, hcodec, hd, ⟨s.rowsIn other.config.name, hin.rows⟩, fun index hi => ?_⟩
      obtain ⟨t, ht⟩ := Option.ne_none_iff_exists'.mp (hin.active index hi)
      obtain ⟨hne, hmeta⟩ := hd.ne_of_mem hi
      obtain ⟨entries, rfl⟩ := Table.eq_index_of_kind (hindex index hne hmeta t ht)
      exact ⟨entries, ht⟩
    · refine (h.handles other hmem).of_tables ⟨_, hin.rows⟩ fun index hne hmeta hthere => ?_
      by_cases hmem : index ∈ b.reconciliation.rebuilt
      · exact hbuilt index hmem
      · rwa [hin.other index hne hmeta hmem]
  · rcases List.mem_append.mp hmem with hkept | hrebuilt
    · exact h.own index hkept
    · exact hd.ne_of_mem (hsub index hrebuilt)
  · obtain ⟨m, hk⟩ := h.keeps
    exact ⟨m, keeps_inLine hlawful h.own hk hin⟩

/-- What a call through a handle has maintained is exact. -/
theorem keeps_placed (hlawful : codec.Lawful) {b : Bucket R} (hb : b.Standing codec name s)
    (hown : ∀ index ∈ kept, index ≠ name) {m : RecordMap R}
    (hk : (s.contents name).Keeps codec kept m)
    {c : Context σ} {w : Write σ R} {h : Contents}
    (hcontents : w.contents b c (s.contents name) = .ok h) :
    ∃ m', ((s.place b.config h).contents name).Keeps codec (w.maintained b kept) m' := by
  have hname := hb.named
  have hcodec := hb.encoded
  subst hname hcodec
  have hrows : ((s.place b.config h).contents b.config.name).rows = h.rows :=
    Store.rowsIn_eq ((Store.table?_place _ _ _ _).trans (if_pos rfl))
  have hactive : ∀ index ∈ b.indices,
      ((s.place b.config h).contents b.config.name).entries index = h.entries index :=
    fun index hindex => Store.entriesIn_eq
      ((Store.holds_place hb.disjoint.primary s h).index index hindex)
  have hedit : ∃ m', ((s.place b.config h).contents b.config.name).Keeps b.codec
      (b.indices.filter fun index => index ∈ kept) m' := by
    obtain ⟨m', hk'⟩ := Write.keeps_maintained hlawful hb.disjoint.distinct hk hcontents
    exact ⟨m', hk'.of_agree ⟨hrows.symm, fun index hindex =>
      (hactive index (List.mem_filter.mp hindex).1).symm⟩⟩
  cases w with
  | insert records => exact hedit
  | update records mutator => exact hedit
  | delete keys => exact hedit
  | reindex =>
    obtain ⟨records, hlegible, hsame, hentries⟩ :=
      Contents.legible_of_rebuild hb.disjoint.distinct (of_mapError_ok hcontents)
    obtain rfl := hk.records_eq hlawful hlegible
    refine ⟨m, hk.build (hrows.trans hsame) (fun index hindex => ⟨hlegible.fits,
      (hactive index hindex).trans (hentries index hindex)⟩) fun index hindex hnot => ?_⟩
    refine Store.entriesIn_congr ?_
    rw [Store.table?_place, if_neg (hown index hindex),
      if_neg (show index ∉ b.config.indices from hnot)]

/-- **A call through a handle.** -/
theorem wrote (hlawful : codec.Lawful) {c c' : Context σ}
    (h : Shared.Sound codec name handles kept c.store) {b : Bucket R} (hb : b ∈ handles)
    (hc : c.Quiet) {w : Write σ R} (hw : w.Mutators Mutator.Tame) (hrun : w.call b c = .ok () c') :
    Shared.Sound codec name handles (w.maintained b kept) c'.store := by
  have hstanding := h.handles b hb
  have hd := hstanding.disjoint
  have hname := hstanding.named
  obtain ⟨h', hcontents, -, hstore⟩ :=
    (w.call_writes b hc hstanding.holds hd.primary hd.distinct hw).of_ok hrun
  have htable : ∀ other, other ≠ name → c'.store.table? other = if other ∈ b.indices then
      some (.index (h'.entries other)) else c.store.table? other := by
    intro other hother
    rw [hstore, Store.table?_place, if_neg (hname ▸ hother)]
    rfl
  have hown : ∀ index ∈ w.maintained b kept, index ∈ kept ∨ index ∈ b.indices := by
    intro index hindex
    cases w with
    | reindex => exact List.mem_append.mp hindex
    | insert _ | update _ _ | delete _ => exact .inr (List.mem_filter.mp hindex).1
  refine ⟨fun other hmem => ?_, fun other hother hmeta t ht => ?_, fun index hmem => ?_, ?_⟩
  · refine (h.handles other hmem).of_tables ⟨h'.rows, ?_⟩ fun index hne _ hthere => ?_
    · rw [hstore, Store.table?_place, if_pos hname.symm]
    · rw [htable index hne]
      split
      · exact ⟨_, rfl⟩
      · exact hthere
  · rw [htable other hother] at ht
    split at ht
    · cases ht
      rfl
    · exact h.index other hother hmeta t ht
  · rcases hown index hmem with hkept | hindex
    · exact h.own index hkept
    · exact hstanding.ne_of_mem hindex
  · obtain ⟨m, hk⟩ := h.keeps
    rw [hstore]
    exact keeps_placed hlawful hstanding (fun index hmem => (h.own index hmem).1) hk hcontents

end Shared.Sound

/-- What an opening that succeeds has done. -/
theorem Call.inLine_of_openBucket {config : BucketConfig} {codec : Codec R} {c c' : Context σ}
    {b : Bucket R} (hc : c.Quiet) (hrun : openBucket config codec c = .ok b c') :
    b.config = config ∧ b.config.validate = .ok () ∧ b.codec = codec ∧ c'.Quiet ∧
      (∀ index ∈ b.reconciliation.rebuilt, index ∈ b.indices) ∧
      c'.store.InLine c.store b.config codec b.reconciliation.rebuilt := by
  obtain ⟨hvalid, hconfig, hcodec, c₁, log, hreconcile, rfl⟩ := of_openBucket hrun
  subst hconfig
  have hd := b.config.disjoint_of_validate hvalid
  obtain ⟨hquiet, hin⟩ := inLine_of_reconcile hc hd hreconcile
  refine ⟨rfl, hvalid, hcodec, hquiet.setLog log, fun index hindex => ?_, hin⟩
  rw [(reports_of_reconcile hc hd hreconcile).rebuilt] at hindex
  exact (List.mem_filter.mp hindex).1

/-- **A run** keeps what is maintained exact. -/
theorem Shared.sound {codec : Codec R} (hlawful : codec.Lawful) {name : String}
    {handles : List (Bucket R)} {kept : List String} {s : Store}
    (h : Shared codec name handles kept s) : Shared.Sound codec name handles kept s := by
  induction h with
  | start => exact .start
  | @opened _ c c' handles kept indices b before quiet run ih =>
    obtain ⟨hconfig, hvalid, hcodec, -, hsub, hin⟩ := Call.inLine_of_openBucket quiet run
    exact ih.opened hlawful (by rw [hconfig]) hcodec (b.config.disjoint_of_validate hvalid) hsub hin
  | refused before run ih => rwa [Call.openBucket_reverts _ _ _ _ _ run]
  | wrote before handle quiet tame run ih => exact ih.wrote hlawful handle quiet tame run
  | @failed _ _ _ _ _ b w _ before handle run ih => rwa [w.reverts b _ _ _ run]

/-! ## After an opening -/

/-- The table of an index holds what the records call for, all of which fit it. -/
def Store.ExactFor (s : Store) (records : List R) (index : String) : Prop :=
  (∀ record ∈ records, Index.Fits [index] record) ∧
    s.table? index = some (.index (Index.expected records index))

/-- A scrub finds nothing just if every index is exact. -/
theorem Bucket.verify_consistent_iff_exactFor (b : Bucket R) {c : Context σ} (hc : c.Quiet)
    {rows : OrderedMap Bytes Bytes} (hrows : c.store.table? b.name = some (.primary rows))
    (hb : b.Present c.store) {records : List R}
    (hlegible : b.codec.Legible [] rows.toList records) :
    (∃ report c', b.verify c = .ok report c' ∧ report.consistent = true) ↔
      ∀ index ∈ b.indices, c.store.ExactFor records index := by
  rw [b.verify_consistent_iff hc hrows hb.ofKind]
  constructor
  · rintro ⟨records', hdecode, hfits, hall⟩ index hmem
    obtain rfl := hlegible.eq hdecode
    exact ⟨fun r hr i hi => hfits r hr i (List.mem_singleton.mp hi ▸ hmem), hall index hmem⟩
  · intro hall
    exact ⟨records, hlegible.decode,
      fun r hr index hmem => (hall index hmem).1 r hr index (List.mem_singleton.mpr rfl),
      fun index hmem => (hall index hmem).2⟩

/-- What a store keeps in an index is exact, if the table is there. -/
theorem Contents.Keeps.exactFor {codec : Codec R} {s : Store} {name : String} {kept : List String}
    {m : RecordMap R} (hk : (s.contents name).Keeps codec kept m) {index : String}
    (hindex : index ∈ kept) (hthere : ∃ entries, s.table? index = some (.index entries)) :
    s.ExactFor m.values index := by
  obtain ⟨entries, hentries⟩ := hthere
  refine ⟨fun r hr i hi => List.mem_singleton.mp hi ▸ hk.fits hr index hindex, ?_⟩
  rw [hentries, ← hk.entries index hindex]
  exact congrArg (some ∘ Table.index) (Store.entriesIn_eq hentries).symm

/-- **After an opening** all indices that were built are exact, and those that were skipped hold
what they held. So a scrub of the new handle finds nothing, and a reindex changes nothing, just if
each index that was skipped was exact before. It was if it is among those that every call since it
was last built has maintained. -/
theorem Shared.exact_after_opening {codec : Codec R} (hlawful : codec.Lawful) {name : String}
    {handles : List (Bucket R)} {kept : List String} {c c' : Context σ}
    (h : Shared codec name handles kept c.store) (hc : c.Quiet) {indices : List String}
    {b : Bucket R} (hopen : Call.openBucket ⟨name, indices⟩ codec c = .ok b c') :
    ∃ records : List R,
      (c.store.rowsIn name).toList.map (fun row => codec.decode row.2) = records.map .ok ∧
      ((∃ report c₁, b.verify c' = .ok report c₁ ∧ report.consistent = true) ↔
        ∀ index ∈ indices, index ∉ b.reconciliation.rebuilt → c.store.ExactFor records index) ∧
      ((∃ report c₁, b.verify c' = .ok report c₁ ∧ report.consistent = true) ↔
        ∃ c₁, b.reindex c' = .ok () c₁ ∧ c₁.store = c'.store) ∧
      ((∀ index ∈ indices, index ∉ b.reconciliation.rebuilt → index ∈ kept) →
        ∃ report c₁, b.verify c' = .ok report c₁ ∧ report.consistent = true) := by
  obtain ⟨hconfig, hvalid, hcodec, hc', -, hin⟩ := Call.inLine_of_openBucket hc hopen
  have hafter := (Shared.opened h hc hopen).sound hlawful
  obtain ⟨m, hk⟩ := hafter.keeps
  have hb := (hafter.handles b List.mem_cons_self).present
  obtain rfl : b.config.name = name := by rw [hconfig]
  obtain rfl : b.config.indices = indices := by rw [hconfig]
  subst hcodec
  have hlegible : b.codec.Legible [] (c.store.rowsIn b.config.name).toList m.values := by
    rw [(Store.rowsIn_eq hin.rows).symm.trans hk.rows]
    exact Contents.legible_of_keyed hk.keyed (hk.recovers hlawful) (by simp [Index.Fits])
  have hexact : ∀ index ∈ b.indices, index ∈ kept ++ b.reconciliation.rebuilt →
      c'.store.ExactFor m.values index := fun index hindex hmem =>
    hk.exactFor hmem (hb.index index hindex)
  have hskipped : ∀ index ∈ b.indices, index ∉ b.reconciliation.rebuilt →
      (c'.store.ExactFor m.values index ↔ c.store.ExactFor m.values index) := by
    intro index hindex hnot
    rw [Store.ExactFor, Store.ExactFor, hin.skipped index hindex hnot]
  have hscrub := b.verify_consistent_iff_exactFor hc' hin.rows hb hlegible
  refine ⟨m.values, hlegible.decode, ?_, ?_, fun hkept => ?_⟩
  · rw [hscrub]
    refine ⟨fun hall index hindex hnot => (hskipped index hindex hnot).mp (hall index hindex),
      fun hall index hindex => ?_⟩
    by_cases hbuilt : index ∈ b.reconciliation.rebuilt
    · exact hexact index hindex (List.mem_append_right _ hbuilt)
    · exact (hskipped index hindex hbuilt).mpr (hall index hindex hbuilt)
  · rw [(b.reindex_unchanged_iff hvalid hc' hin.rows hb.index).1]
    exact (and_iff_left hlegible.inPlace).symm
  · refine hscrub.mpr fun index hindex => hexact index hindex ?_
    by_cases hbuilt : index ∈ b.reconciliation.rebuilt
    · exact List.mem_append_right _ hbuilt
    · exact List.mem_append_left _ (hkept index hindex hbuilt)

/-! ### Two handles of a bucket of words -/

/-- A handle is what was opened and what is reported. -/
theorem Call.handle_of_openBucket {config : BucketConfig} {codec : Codec R} {c c' : Context σ}
    {b : Bucket R} (hrun : openBucket config codec c = .ok b c') {r : Reconciliation}
    (hr : b.reconciliation = r) : b = ⟨config, codec, r⟩ := by
  obtain ⟨-, hconfig, hcodec, -⟩ := of_openBucket hrun
  cases hr
  cases hconfig
  cases hcodec
  rfl

namespace Shared

/-- A handle without indices, which is opened first. -/
def plain : Bucket Word := ⟨⟨"words", []⟩, .words, ⟨none, [], [], 0⟩⟩

/-- A handle with an index of letters, which is opened second. -/
def lettered : Bucket Word := ⟨⟨"words", ["letter"]⟩, .words, ⟨some [], ["letter"], [], 0⟩⟩

/-- The store after both were opened. -/
@[irreducible]
def bothOpened : Store :=
  let c : Context Unit := Call.quiet .empty [] ()
  let c' := Call.context (Call.openBucket plain.config Codec.words c)
  (Call.context (Call.openBucket lettered.config Codec.words c')).store

theorem shared_bothOpened : Shared .words "words" [lettered, plain] ["letter"] bothOpened := by
  let c : Context Unit := Call.quiet .empty [] ()
  let c' := Call.context (Call.openBucket plain.config Codec.words c)
  obtain ⟨b, hfirst, hr⟩ := Call.ok_of_check (x := Call.openBucket plain.config Codec.words)
    (c := c) (fun b => b.reconciliation = ⟨none, [], [], 0⟩) (by decide +kernel)
  obtain ⟨b', hsecond, hr'⟩ := Call.ok_of_check (x := Call.openBucket lettered.config Codec.words)
    (c := c') (fun b => b.reconciliation = ⟨some [], ["letter"], [], 0⟩) (by decide +kernel)
  obtain rfl : b = plain := Call.handle_of_openBucket hfirst (of_decide_eq_true hr)
  obtain rfl : b' = lettered := Call.handle_of_openBucket hsecond (of_decide_eq_true hr')
  have hquiet : c.Quiet := Context.quiet_quiet _ _ _
  obtain ⟨-, -, -, hquiet', -⟩ := Call.inLine_of_openBucket hquiet hfirst
  rw [bothOpened]
  exact .opened (.opened .start hquiet hfirst) hquiet' hsecond

/-- A word is inserted. -/
def inserting : Write Unit Word := .insert [⟨[7]⟩]

/-- The store after a word was inserted through a handle. -/
@[irreducible]
def insertedBy (b : Bucket Word) : Store :=
  (Call.context (inserting.call b (Call.quiet bothOpened [] ()))).store

theorem shared_insertedBy {b : Bucket Word} (hb : b ∈ [lettered, plain]) {c' : Context Unit}
    (hinsert : inserting.call b (Call.quiet bothOpened [] ()) = .ok () c') :
    Shared .words "words" [lettered, plain] (inserting.maintained b ["letter"]) (insertedBy b) := by
  rw [insertedBy, hinsert]
  exact .wrote shared_bothOpened hb (Context.quiet_quiet _ _ _) trivial hinsert

theorem exact_after_opening_words :
    ∃ kept, ∃ c c' : Context Unit, ∃ b,
      Codec.words.Lawful ∧ Shared .words "words" [lettered, plain] kept c.store ∧ c.Quiet ∧
      Call.openBucket ⟨"words", ["letter"]⟩ .words c = .ok b c' ∧
      b.reconciliation.rebuilt = [] ∧ c.store.rowsIn "words" = .ofList [([7], [7])] ∧
      ∃ report c₁, b.verify c' = .ok report c₁ ∧ report.consistent = true := by
  let c : Context Unit := Call.quiet (insertedBy lettered) [] ()
  obtain ⟨⟨⟩, hinsert, -⟩ := Call.ok_of_check (x := inserting.call lettered)
    (c := Call.quiet bothOpened [] ()) (fun _ => true) (by decide +kernel)
  have hshared : Shared .words "words" [lettered, plain] ["letter"] c.store :=
    shared_insertedBy (by simp) hinsert
  obtain ⟨b, hopen, hr⟩ := Call.ok_of_check (x := Call.openBucket lettered.config Codec.words)
    (c := c) (fun b => b.reconciliation.rebuilt = []) (by decide +kernel)
  have hquiet : c.Quiet := Context.quiet_quiet _ _ _
  obtain ⟨-, -, -, -, hkept⟩ :=
    Shared.exact_after_opening Codec.words_lawful (c := c) hshared hquiet hopen
  exact ⟨_, c, _, b, Codec.words_lawful, hshared, hquiet, hopen, of_decide_eq_true hr,
    by decide +kernel, hkept fun index hindex _ => hindex⟩

/-- An index that is skipped though a word was inserted through a handle without it. -/
theorem skipped_though_stale :
    ∃ kept, ∃ c c' : Context Unit, ∃ b,
      Shared .words "words" [lettered, plain] kept c.store ∧ c.Quiet ∧
      Call.openBucket ⟨"words", ["letter"]⟩ .words c = .ok b c' ∧
      b.reconciliation.rebuilt = [] ∧
      ∃ report c₁, b.verify c' = .ok report c₁ ∧ report.consistent = false := by
  let c : Context Unit := Call.quiet (insertedBy plain) [] ()
  obtain ⟨⟨⟩, hinsert, -⟩ := Call.ok_of_check (x := inserting.call plain)
    (c := Call.quiet bothOpened [] ()) (fun _ => true) (by decide +kernel)
  have hshared : Shared .words "words" [lettered, plain] [] c.store :=
    shared_insertedBy (by simp) hinsert
  let third : Reconciliation := ⟨some ["letter"], [], [], 0⟩
  let again : Bucket Word := ⟨⟨"words", ["letter"]⟩, .words, third⟩
  obtain ⟨b, hopen, hr⟩ := Call.ok_of_check (x := Call.openBucket lettered.config Codec.words)
    (c := c) (fun b => b.reconciliation = third) (by decide +kernel)
  obtain rfl : b = again := Call.handle_of_openBucket hopen (of_decide_eq_true hr)
  obtain ⟨report, hverify, hreport⟩ := Call.ok_of_check (x := again.verify)
    (c := Call.context (Call.openBucket lettered.config Codec.words c))
    (fun report => !report.consistent) (by decide +kernel)
  exact ⟨_, c, _, again, hshared, Context.quiet_quiet _ _ _, hopen, rfl, report, _, hverify,
    by simpa using hreport⟩

end Shared

end IndexedStore
