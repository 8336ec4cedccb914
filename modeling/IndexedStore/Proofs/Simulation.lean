import IndexedStore.Proofs.Answers
import IndexedStore.Proofs.Opening
import IndexedStore.Record.Word

set_option autoImplicit false

/-! # A bucket is a map of records

A bucket that is opened on an empty store shows the empty map, and every call that changes it takes
the map along (`Bucket.Shows.step`): the call succeeds just if the map admits the batch, and
otherwise map and bucket are as before. So over any run of calls the bucket stands for a map that
never looks at a table (`Bucket.Shows.run`), and answers every question as the map does
(`Bucket.Shows.simulates`). -/

namespace IndexedStore

variable {R σ : Type} [Record R]

namespace Bucket

/-- The tables of a bucket are those of a map of records, and nothing disturbs the calls on it. -/
structure Shows (b : Bucket R) (c : Context σ) (m : RecordMap R) : Prop where
  disjoint : b.config.Disjoint
  quiet : c.Quiet
  keeps : ∃ h, c.store.Holds b.config h ∧ h.Keeps b.codec b.indices m

theorem Shows.recovers {b : Bucket R} (hlawful : b.codec.Lawful) {c : Context σ} {m : RecordMap R}
    (hb : b.Shows c m) : b.codec.Recovers m := by
  obtain ⟨h, -, hk⟩ := hb.keeps
  exact hk.recovers hlawful

/-- **One call** takes the map along and touches no tables but those of the bucket, or leaves the
store and the map as they were. -/
theorem Shows.step {b : Bucket R} {c : Context σ} {m : RecordMap R} (hreads : b.codec.Recovers m)
    (hb : b.Shows c m) {w : Write σ R} (hw : w.Mutators Mutator.Tame) :
    match w.onMap? (b.codec.accepts b.indices) c m with
    | some m' => ∃ c' h', w.call b c = .ok () c' ∧ b.Shows c' m' ∧
        h'.Keeps b.codec b.indices m' ∧ c'.store = c.store.place b.config h'
    | none => ∃ stop c', w.call b c = .error stop c' ∧ c'.store = c.store ∧ b.Shows c' m := by
  obtain ⟨hd, hc, h, hs, hk⟩ := hb
  have hwrites := w.call_writes b hc hs hd.primary hd.distinct hw
  have htracks := w.tracks hreads hd.distinct hk c
  cases hmap : w.onMap? (b.codec.accepts b.indices) c m with
  | some m' =>
    rw [hmap] at htracks
    cases hcontents : w.contents b c h with
    | error stop =>
      rw [hcontents] at htracks
      exact htracks.elim
    | ok h' =>
      rw [hcontents] at htracks hwrites
      obtain ⟨c', hrun, hquiet, hstore⟩ := hwrites
      have hholds : c'.store.Holds b.config h' :=
        hstore ▸ Store.holds_place hd.primary c.store h'
      exact ⟨c', h', hrun, ⟨hd, hquiet, h', hholds, htracks⟩, htracks, hstore⟩
  | none =>
    rw [hmap] at htracks
    cases hcontents : w.contents b c h with
    | ok h' =>
      rw [hcontents] at htracks
      exact htracks.elim
    | error stop =>
      rw [hcontents] at hwrites
      obtain ⟨c', hrun, hquiet, hstore⟩ := hwrites
      exact ⟨stop, c', hrun, hstore, hd, hquiet, h, hstore ▸ hs, hk⟩

end Bucket

/-! ## A fresh bucket -/

/-- The metadata table of a bucket with the given indices. -/
def Descriptor.table (indices : List String) : Table :=
  .metadata (OrderedMap.empty.insert rowKey (ofIndices indices).toBytes)

/-- Bringing the empty tables of a fresh bucket in line gives all of its tables. -/
theorem Store.reconciled_founded (s : Store) (config : BucketConfig) (codec : Codec R) :
    (s.founded config).reconciled config codec none .empty .empty
      = .ok (((s.founded config).place config ⟨.empty, fun _ => .empty⟩).put config.metadataName
        (Descriptor.table config.indices)) := by
  have hunbuilt : ∀ names, config.unbuilt none names = config.indices := fun names => by
    simp [BucketConfig.unbuilt]
  have hbuild : Contents.build codec config.indices .empty = .ok ⟨.empty, fun _ => .empty⟩ := by
    rw [Contents.build]
    split <;> rfl
  rw [reconciled, BucketConfig.building, hunbuilt, hbuild]
  rfl

/-- What belongs to the empty map is kept by empty tables. -/
theorem Contents.keeps_empty (codec : Codec R) (indices : List String) :
    (⟨.empty, fun _ => .empty⟩ : Contents).Keeps codec indices .empty := by
  refine ⟨rfl, fun _ _ => rfl, ?_, ?_, ?_⟩
  · intro k r hr
    cases hr
  · intro r hr
    cases hr
  · intro r hr
    cases hr

/-- **Opening on an empty store** gives a bucket that shows the empty map, and writes its
descriptor. -/
theorem Call.openBucket_empty {config : BucketConfig} (hvalid : config.validate = .ok ())
    (codec : Codec R) {c : Context σ} (hc : c.Quiet) (hempty : c.store = .empty) :
    ∃ b c', openBucket config codec c = .ok b c' ∧ b.config = config ∧ b.codec = codec ∧
      b.Shows c' .empty ∧
      c'.store.table? config.metadataName = some (Descriptor.table config.indices) := by
  have hd := config.disjoint_of_validate hvalid
  have habsent : ∀ name, c.store.table? name = none := fun name => by rw [hempty]; rfl
  have hprimary : (c.store.founded config).table? config.name = some (.primary .empty) := by
    rw [Store.founded, Store.table?_put, if_neg hd.own.symm, Store.table?_put, if_pos rfl]
  have hmetadata : (c.store.founded config).table? config.metadataName
      = some (.metadata .empty) := by
    rw [Store.founded, Store.table?_put, if_pos rfl]
  have hends := reconcile_ends (hc.setStore (c.store.founded config)) hd hprimary hmetadata codec
  have hends' : Ends (reconcile config codec) c
      ((c.store.founded config).reconciled config codec none .empty .empty) := by
    unfold Ends
    rw [reconcile_absent (habsent _) (habsent _)]
    exact hends
  have hopen := openBucket_of_ends hvalid _ hends'
  rw [Store.reconciled_founded] at hopen
  obtain ⟨b, c', hrun, rfl, rfl, hquiet, hstore⟩ := hopen
  refine ⟨b, c', hrun, rfl, rfl, ⟨hd, hquiet, ⟨.empty, fun _ => .empty⟩, ⟨?_, ?_⟩,
    Contents.keeps_empty b.codec b.indices⟩, ?_⟩
  · rw [hstore, Store.table?_put, if_neg hd.own.symm, Store.table?_place, if_pos rfl]
  · intro index hindex
    have hmeta : index ≠ b.config.metadataName := fun he => hd.metadata (he ▸ hindex)
    have hname : index ≠ b.config.name := fun he => hd.primary (he ▸ hindex)
    rw [hstore, Store.table?_put, if_neg hmeta, Store.table?_place, if_neg hname, if_pos hindex]
  · rw [hstore, Store.table?_put, if_pos rfl]

/-! ## Runs -/

/-- Whether a record can be filed in the active indices. -/
def Bucket.fits (b : Bucket R) (record : R) : Bool :=
  decide (Index.Fits b.indices record)

/-- A bucket in a context answers as a map of records does, and a call that changes it succeeds just
if the map admits the call. -/
structure Bucket.Simulates (b : Bucket R) (c : Context σ) (m : RecordMap R) : Prop where
  /-- The records of keys. -/
  read : ∀ keys, b.read keys c = .ok (keys.map m.get?) c
  /-- Whether there is a record under a key. -/
  contains : ∀ key, b.contains key c = .ok (m.contains key) c
  /-- How many records there are. -/
  size : b.size c = .ok m.size c
  /-- A page of the records in key order. -/
  list : ∀ offset limit, b.list offset limit c = .ok (page offset limit m.values, m.size) c
  /-- The keys of the records that have values in an active index, unless one is too long. -/
  readIndex : ∀ index ∈ b.indices, ∀ values,
    match tooLong? values with
    | some value => b.readIndex index values c = .error (.failed (.oversized ⟨value.length⟩)) c
    | none => ∃ found, b.readIndex index values c = .ok found c ∧
        ∀ value, found.get? value = if value ∈ values then some (m.keysWith index value) else none
  /-- An index that is not active is not read. -/
  unknownIndex : ∀ index, index ∉ b.indices → ∀ values,
    b.readIndex index values c = .error (.failed (.unknownIndex index b.name)) c
  /-- What may change the bucket. -/
  admits : ∀ w : Write σ R, w.Mutators Mutator.Tame →
    ((∃ c', w.call b c = .ok () c') ↔ (w.onMap? b.fits c m).isSome = true)

/-- One call on a bucket, and what it makes of a map; a call that the map does not admit leaves the
map as it is. -/
def Write.step (b : Bucket R) (state : Context σ × RecordMap R) (w : Write σ R) :
    Context σ × RecordMap R :=
  (Call.context (w.call b state.1),
    (w.onMap? b.fits state.1 state.2).getD state.2)

namespace Bucket

variable {b : Bucket R} {c : Context σ} {m : RecordMap R}

/-- If all records have bytes, those can be stored that fit. -/
theorem accepts_of_total
    (htotal : ∀ record, b.codec.encode record >>= b.codec.decode = .ok record) :
    b.codec.accepts b.indices = b.fits := by
  funext record
  have hbytes : (b.codec.encode record).toBool = true := by
    have hboth := htotal record
    cases hencode : b.codec.encode record with
    | error e =>
      rw [hencode] at hboth
      cases hboth
    | ok bytes => rfl
  rw [Codec.accepts, hbytes, Bool.and_true, fits]

omit [Record R] in
theorem lawful_of_total {codec : Codec R}
    (htotal : ∀ record, codec.encode record >>= codec.decode = .ok record) : codec.Lawful := by
  intro record bytes hencode
  have hboth := htotal record
  rw [hencode] at hboth
  exact hboth

theorem Shows.simulates (htotal : ∀ record, b.codec.encode record >>= b.codec.decode = .ok record)
    (hb : b.Shows c m) : b.Simulates c m := by
  have hreads := hb.recovers (lawful_of_total htotal)
  obtain ⟨hd, hc, h, hs, hk⟩ := id hb
  refine ⟨b.read_ok hc hreads hs hk, b.contains_ok hs hk, b.size_ok hs hk,
    b.list_ok hc hreads hs hk, fun index hindex values => ?_, fun index hindex values => ?_,
    fun w hw => ?_⟩
  · have hread := b.readIndex_eq hc hs hk index values
    rwa [if_pos hindex] at hread
  · have hread := b.readIndex_eq hc hs hk index values
    rwa [if_neg hindex] at hread
  · have hstep := hb.step hreads hw
    rw [accepts_of_total htotal] at hstep
    cases hmap : w.onMap? b.fits c m with
    | some m' =>
      rw [hmap] at hstep
      obtain ⟨c', -, hrun, -⟩ := hstep
      simp [hrun]
    | none =>
      rw [hmap] at hstep
      obtain ⟨stop, c', hrun, -⟩ := hstep
      simp [hrun]

theorem Shows.stepped (htotal : ∀ record, b.codec.encode record >>= b.codec.decode = .ok record)
    (hb : b.Shows c m) {w : Write σ R} (hw : w.Mutators Mutator.Tame) :
    b.Shows (w.step b (c, m)).1 (w.step b (c, m)).2 := by
  have hstep := hb.step (hb.recovers (lawful_of_total htotal)) hw
  rw [accepts_of_total htotal] at hstep
  rw [Write.step]
  cases hmap : w.onMap? b.fits c m with
  | some m' =>
    rw [hmap] at hstep
    obtain ⟨c', -, hrun, hshows, -⟩ := hstep
    rw [hrun]
    exact hshows
  | none =>
    rw [hmap] at hstep
    obtain ⟨stop, c', hrun, -, hshows⟩ := hstep
    rw [hrun]
    exact hshows

/-- **A run of calls** keeps the tables of the bucket those of the map. -/
theorem Shows.run (htotal : ∀ record, b.codec.encode record >>= b.codec.decode = .ok record)
    (hb : b.Shows c m) {ws : List (Write σ R)} (hws : ∀ w ∈ ws, w.Mutators Mutator.Tame) :
    b.Shows (ws.foldl (Write.step b) (c, m)).1 (ws.foldl (Write.step b) (c, m)).2 := by
  induction ws generalizing c m with
  | nil => exact hb
  | cons w rest ih =>
    obtain ⟨hw, hrest⟩ := List.forall_mem_cons.mp hws
    exact ih (hb.stepped htotal hw) hrest

/-- **A bucket is a map of records.** Opened on an empty store with a valid configuration it is the
empty map, and after every run of calls, succeeding or failing, it is what the calls have made of
that map. -/
theorem simulates_map {config : BucketConfig} (hvalid : config.validate = .ok ()) {codec : Codec R}
    (htotal : ∀ record, codec.encode record >>= codec.decode = .ok record) {c : Context σ}
    (hc : c.Quiet) (hempty : c.store = .empty) :
    ∃ b c', Call.openBucket config codec c = .ok b c' ∧ b.config = config ∧ b.codec = codec ∧
      ∀ ws : List (Write σ R), (∀ w ∈ ws, w.Mutators Mutator.Tame) →
        b.Simulates (ws.foldl (Write.step b) (c', .empty)).1
          (ws.foldl (Write.step b) (c', .empty)).2 := by
  obtain ⟨b, c', hopen, hconfig, rfl, hshows, -⟩ := Call.openBucket_empty hvalid codec hc hempty
  exact ⟨b, c', hopen, hconfig, rfl, fun ws hws => (hshows.run htotal hws).simulates htotal⟩

end Bucket

/-! ### Words that are put in, reversed and taken out -/

/-- A mutator that reverses the order of the records. -/
def Mutator.reversing : Mutator σ R := fun _ records =>
  pure ⟨records.val.reverse, by rw [List.length_reverse, records.property]⟩

omit [Record R] in
theorem Mutator.reversing_tame : (Mutator.reversing : Mutator σ R).Tame :=
  fun _ _ _ hc => ⟨hc, rfl⟩

theorem Bucket.simulates_map_words :
    let config : BucketConfig := ⟨"words", ["initial", "letter"]⟩
    let ws : List (Write Unit Word) := [.insert [⟨[7, 8]⟩, ⟨[7]⟩, ⟨[8]⟩],
      .update [⟨[7]⟩, ⟨[8]⟩] .reversing, .insert [⟨[8, 8]⟩, ⟨[]⟩], .delete [[7], [9]], .reindex]
    config.validate = .ok () ∧
      (∀ word, Codec.words.encode word >>= Codec.words.decode = .ok word) ∧
      (∀ w ∈ ws, w.Mutators Mutator.Tame) ∧
      ∃ b c', Call.openBucket config .words (Call.quiet .empty [] ()) = .ok b c' ∧
        b.Simulates (ws.foldl (Write.step b) (c', .empty)).1
          (ws.foldl (Write.step b) (c', .empty)).2 := by
  intro config ws
  have hvalid : config.validate = .ok () := rfl
  have htotal : ∀ word, Codec.words.encode word >>= Codec.words.decode = .ok word := fun _ => rfl
  have hws : ∀ w ∈ ws, w.Mutators Mutator.Tame := by
    simp only [ws, List.forall_mem_cons, List.not_mem_nil, false_implies, implies_true, and_true]
    exact ⟨trivial, Mutator.reversing_tame, trivial, trivial, trivial⟩
  obtain ⟨b, c', hopen, -, -, hall⟩ := Bucket.simulates_map hvalid htotal
    (Context.quiet_quiet .empty [] ()) rfl
  exact ⟨hvalid, htotal, hws, b, c', hopen, hall ws hws⟩

end IndexedStore
