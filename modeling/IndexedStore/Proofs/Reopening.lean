import IndexedStore.Proofs.Reconciling
import IndexedStore.Proofs.Simulation

set_option autoImplicit false

/-! # Opening a bucket again

A bucket is settled (`Bucket.Settled`) if its tables are those of a map of records and the stored
descriptor names its active indices. Opening such a bucket with other indices builds those that the
descriptor does not name. The others may be skipped: they were active until now, so their tables
are exact. Hence the bucket that is opened is settled too, with the same map
(`Bucket.Settled.reopen`). What the tables of indices hold that were not active does not matter. -/

namespace IndexedStore

variable {R σ : Type} [Record R]

/-! ## Building what is missing -/

namespace Contents

variable {codec : Codec R} {indices : List String} {h : Contents} {m : RecordMap R}

/-- The contents of the tables that a map of records calls for. -/
def of (codec : Codec R) (m : RecordMap R) : Contents :=
  ⟨m.mapValues codec.bytes, Index.expected m.values⟩

theorem Keeps.place_eq (hk : h.Keeps codec indices m) (s : Store) {config : BucketConfig}
    (hindices : config.indices = indices) : s.place config h = s.place config (of codec m) :=
  Store.place_congr hk.rows fun index hindex => hk.entries index (hindices ▸ hindex)

/-- What is built of the rows of a map is what the map calls for, and is built just for records that
fit. -/
theorem of_build (hdistinct : indices.Nodup) (hreads : codec.Recovers m)
    (hbuild : build codec indices (m.mapValues codec.bytes) = .ok h) :
    h.rows = m.mapValues codec.bytes ∧
      (∀ index ∈ indices, h.entries index = Index.expected m.values index) ∧
      ∀ r ∈ m.values, Index.Fits indices r := by
  obtain ⟨hrows, hfiled⟩ := legible_of_build hdistinct hbuild
  -- What was read of the rows are the records of the map.
  have hmap : ∀ index ∈ indices, h.entries index = Index.expected m.values index ∧
      ∀ r ∈ m.values, Index.Fits indices r := by
    intro index hindex
    obtain ⟨records, hlegible, hentries⟩ := hfiled index hindex
    obtain rfl := hlegible.eq (decode_rows hreads)
    exact ⟨hentries, hlegible.fits⟩
  exact ⟨hrows, fun index hindex => (hmap index hindex).1,
    fun r hr index hindex => (hmap index hindex).2 r hr index hindex⟩

end Contents

/-- An index that need not be built is one of the descriptor. -/
theorem BucketConfig.mem_of_not_unbuilt {config : BucketConfig} {indices existing : List String}
    {index : String} (hindex : index ∈ config.indices)
    (hbuilt : index ∉ config.unbuilt (some (Descriptor.ofIndices indices)) existing) :
    index ∈ indices := by
  refine Decidable.byContradiction fun hnot => hbuilt (List.mem_filter.mpr ⟨hindex, ?_⟩)
  simp [Descriptor.ofIndices, hnot]

/-! ## Settled buckets -/

namespace Bucket

/-- The tables of a bucket are those of a map of records, and its descriptor is stored. -/
structure Settled (b : Bucket R) (c : Context σ) (m : RecordMap R) : Prop where
  valid : b.config.validate = .ok ()
  shows : b.Shows c m
  metadata : c.store.table? b.config.metadataName = some (Descriptor.table b.indices)

variable {b : Bucket R} {c : Context σ} {m : RecordMap R}

/-- **One call** leaves a settled bucket settled, with the map that the call has made. -/
theorem Settled.write (hlawful : b.codec.Lawful) (hb : b.Settled c m) {w : Write σ R}
    (hw : w.Mutators Mutator.Tame) :
    match w.onMap? (b.codec.accepts b.indices) c m with
    | some m' => ∃ c', w.call b c = .ok () c' ∧ b.Settled c' m' ∧
        c'.store = c.store.place b.config (.of b.codec m')
    | none => ∃ stop c', w.call b c = .error stop c' ∧ b.Settled c' m := by
  have hstep := hb.shows.step (hb.shows.recovers hlawful) hw
  cases hmap : w.onMap? (b.codec.accepts b.indices) c m with
  | some m' =>
    rw [hmap] at hstep
    obtain ⟨c', h', hrun, hshows, hk, hstore⟩ := hstep
    refine ⟨c', hrun, ⟨hb.valid, hshows, ?_⟩, hstore.trans (hk.place_eq c.store rfl)⟩
    rw [hstore, Store.table?_place, if_neg hshows.disjoint.own, if_neg hshows.disjoint.metadata]
    exact hb.metadata
  | none =>
    rw [hmap] at hstep
    obtain ⟨stop, c', hrun, hstore, hshows⟩ := hstep
    exact ⟨stop, c', hrun, hb.valid, hshows, hstore ▸ hb.metadata⟩

/-- The tables of a settled bucket are those that its map calls for. -/
theorem Settled.holds (hb : b.Settled c m) : c.store.Holds b.config (.of b.codec m) := by
  obtain ⟨hd, -, h, hs, hk⟩ := hb.shows
  rw [← hs.place_eq, hk.place_eq c.store rfl]
  exact Store.holds_place hd.primary _ _

end Bucket

/-! ## The descriptor -/

namespace Descriptor

/-- A descriptor takes the place of the one before. -/
theorem table_of_insert (indices more : List String) :
    Table.metadata ((OrderedMap.empty.insert rowKey (ofIndices indices).toBytes).insert rowKey
      (ofIndices more).toBytes) = table more := by
  refine congrArg Table.metadata (OrderedMap.ext_get? fun k => ?_)
  simp only [OrderedMap.get?_insert]
  split <;> rfl

end Descriptor

/-! ## Opening -/

/-- Bringing the tables of a settled bucket in line with other indices gives the tables that its
map calls for, and only if all records fit these indices. -/
theorem Store.holds_of_reconciled {b : Bucket R} (hlawful : b.codec.Lawful) {c : Context σ}
    {m : RecordMap R} (hb : b.Settled c m) {config : BucketConfig} (hd : config.Disjoint)
    {s : Store}
    (hs : c.store.reconciled config b.codec (some (Descriptor.ofIndices b.indices))
      (m.mapValues b.codec.bytes)
      (OrderedMap.empty.insert Descriptor.rowKey (Descriptor.ofIndices b.indices).toBytes)
        = .ok s) :
    s.Holds config (.of b.codec m) ∧ (Contents.of b.codec m).Keeps b.codec config.indices m ∧
      s.table? config.metadataName = some (Descriptor.table config.indices) := by
  obtain ⟨-, -, h, -, hk⟩ := hb.shows
  rw [reconciled] at hs
  cases hbuild : Contents.build b.codec
      (config.unbuilt (some (Descriptor.ofIndices b.indices)) c.store.names)
      (m.mapValues b.codec.bytes) with
  | error e =>
    rw [hbuild] at hs
    cases hs
  | ok built =>
    rw [hbuild] at hs
    cases hs
    have hdistinct := (hd.building (some (Descriptor.ofIndices b.indices)) c.store.names).distinct
    obtain ⟨hrows, hentries, hfits⟩ := Contents.of_build hdistinct (hk.recovers hlawful) hbuild
    refine ⟨⟨?_, fun index hindex => ?_⟩, ⟨rfl, fun _ _ => rfl, hk.keyed, hk.nonempty,
      fun r hr => (b.codec.accepts_iff config.indices r).mpr ⟨fun index hindex => ?_, ?_⟩⟩, ?_⟩
    · rw [table?_put, if_neg hd.own.symm, table?_place]
      exact (if_pos rfl).trans (congrArg (some ∘ Table.primary) hrows)
    · have hmetadata : index ≠ config.metadataName := fun he => hd.metadata (he ▸ hindex)
      have hprimary : index ≠ config.name := fun he => hd.primary (he ▸ hindex)
      rw [table?_put, if_neg hmetadata, table?_place]
      refine (if_neg hprimary).trans ?_
      by_cases hbuilt : index ∈ config.unbuilt (some (Descriptor.ofIndices b.indices)) c.store.names
      · exact (if_pos hbuilt).trans (congrArg (some ∘ Table.index) (hentries index hbuilt))
      · -- An index that is skipped was active until now.
        exact (if_neg hbuilt).trans
          (hb.holds.index index (config.mem_of_not_unbuilt hindex hbuilt))
    · by_cases hbuilt : index ∈ config.unbuilt (some (Descriptor.ofIndices b.indices)) c.store.names
      · exact hfits r hr index hbuilt
      · exact hk.fits hr index (config.mem_of_not_unbuilt hindex hbuilt)
    · exact ((b.codec.accepts_iff b.indices r).mp (hk.accepted r hr)).2
    · rw [table?_put, if_pos rfl]
      exact congrArg some (Descriptor.table_of_insert b.indices config.indices)

namespace Bucket

variable {b : Bucket R} {c c' : Context σ} {m : RecordMap R}

theorem Settled.of_store_eq (hb : b.Settled c m) (hc : c'.Quiet) (hstore : c'.store = c.store) :
    b.Settled c' m := by
  obtain ⟨hvalid, ⟨hd, -, h, hs, hk⟩, hmetadata⟩ := hb
  exact ⟨hvalid, ⟨hd, hc, h, hstore ▸ hs, hk⟩, hstore ▸ hmetadata⟩

/-- The tables of a settled bucket, found by the name in another configuration. -/
theorem Settled.table?_of_name (hb : b.Settled c m) {config : BucketConfig}
    (hname : config.name = b.name) :
    c.store.table? config.name = some (.primary (m.mapValues b.codec.bytes)) ∧
      c.store.table? config.metadataName = some (Descriptor.table b.indices) := by
  rw [BucketConfig.metadataName, hname]
  exact ⟨hb.holds.primary, hb.metadata⟩

/-- A settled bucket is opened again with indices that all its records fit. -/
theorem Settled.reopen_ok (hlawful : b.codec.Lawful) (hb : b.Settled c m)
    (hsized : b.config.Sized) {config : BucketConfig} (hvalid : config.validate = .ok ())
    (hname : config.name = b.name) (hfits : ∀ r ∈ m.values, Index.Fits config.indices r) :
    ∃ b' c', Call.openBucket config b.codec c = .ok b' c' := by
  obtain ⟨h, -, hk⟩ := hb.shows.keeps
  obtain ⟨hprimary, hmetadata⟩ := hb.table?_of_name hname
  have hprevious : Descriptor.stored (c.store.metadataIn config.metadataName)
      = .ok (some (Descriptor.ofIndices b.indices)) := by
    rw [Store.metadataIn_eq hmetadata]
    exact Descriptor.stored_insert hsized _
  have hlegible : b.codec.Legible config.indices (c.store.rowsIn config.name).toList m.values := by
    rw [Store.rowsIn_eq hprimary]
    exact Contents.legible_of_keyed hk.keyed (hk.recovers hlawful) hfits
  exact Call.openBucket_ok hb.shows.quiet hvalid (Store.ofKind_of_table? hprimary)
    (Store.ofKind_of_table? hmetadata) hprevious hlegible

/-- **Opening a settled bucket again**, with whatever indices, gives a settled bucket with the same
map, or fails and leaves the bucket as it was. -/
theorem Settled.reopen (hlawful : b.codec.Lawful) (hb : b.Settled c m) (config : BucketConfig)
    (hname : config.name = b.name) :
    match Call.openBucket config b.codec c with
    | .ok b' c' => b'.config = config ∧ b'.codec = b.codec ∧ b'.Settled c' m
    | .error _ c' => b.Settled c' m := by
  cases hvalid : config.validate with
  | error e =>
    rw [Call.openBucket_invalid hvalid]
    exact hb
  | ok _ =>
    have hd := config.disjoint_of_validate hvalid
    obtain ⟨hprimary, hmetadata⟩ := hb.table?_of_name hname
    have hopen := Call.openBucket_of_ends hvalid _
      (Call.reconcile_ends hb.shows.quiet hd hprimary hmetadata b.codec)
    cases hprevious : Descriptor.stored (OrderedMap.empty.insert Descriptor.rowKey
        (Descriptor.ofIndices b.indices).toBytes) with
    | error e =>
      -- A descriptor that is too long to be read stops the call.
      rw [hprevious] at hopen
      obtain ⟨c', hstop, hquiet, hstore⟩ := hopen
      rw [hstop]
      exact hb.of_store_eq hquiet hstore
    | ok previous =>
      obtain rfl : previous = some (Descriptor.ofIndices b.indices) :=
        Descriptor.stored_eq ((OrderedMap.get?_insert _ _ _ _).trans (if_pos rfl)) hprevious
      rw [hprevious] at hopen
      cases hs : c.store.reconciled config b.codec (some (Descriptor.ofIndices b.indices))
          (m.mapValues b.codec.bytes) (OrderedMap.empty.insert Descriptor.rowKey
            (Descriptor.ofIndices b.indices).toBytes) with
      | error e =>
        -- So does a record that cannot be filed in one of the new indices.
        simp only [bind, Except.bind, hs] at hopen
        obtain ⟨c', hstop, hquiet, hstore⟩ := hopen
        rw [hstop]
        exact hb.of_store_eq hquiet hstore
      | ok s =>
        simp only [bind, Except.bind, hs] at hopen
        obtain ⟨b', c', hrun, rfl, hcodec, hquiet, rfl⟩ := hopen
        obtain ⟨hholds, hkeeps, hstored⟩ := Store.holds_of_reconciled hlawful hb hd hs
        rw [hrun]
        refine ⟨rfl, hcodec, hvalid, ⟨hd, hquiet, .of b.codec m, hholds, ?_⟩, hstored⟩
        rw [hcodec]
        exact hkeeps

end Bucket

end IndexedStore
