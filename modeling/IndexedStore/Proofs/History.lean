import IndexedStore.Proofs.Reopening
import IndexedStore.Proofs.Scrub
import IndexedStore.Record.Word

set_option autoImplicit false

/-! # What a bucket has been through does not show

Over time a bucket is opened with different indices and changed in between (`Visit`). Indices fall
out of use while records change, and come back. None of this is left in the tables that are in use:
they are those that the records call for (`Standing.Settled.run`), and so the same that a fresh
bucket with the same indices has after one insert of the same records. -/

namespace IndexedStore

variable {R σ : Type} [Record R]

/-! ## Visits -/

/-- What is done with a bucket: it is opened with some indices, or changed. -/
inductive Visit (σ R : Type) where
  | reopen (indices : List String)
  | write (w : Write σ R)

/-- The handle that was opened last, if there is one, and the context. -/
structure Standing (σ R : Type) where
  handle : Option (Bucket R)
  context : Context σ

/-- One visit. A handle is replaced if opening succeeds; without a handle nothing is changed. -/
def Visit.step (name : String) (codec : Codec R) (state : Standing σ R) :
    Visit σ R → Standing σ R
  | reopen indices =>
    match Call.openBucket ⟨name, indices⟩ codec state.context with
    | .ok b c => ⟨some b, c⟩
    | .error _ c => ⟨state.handle, c⟩
  | write w =>
    match state.handle with
    | none => state
    | some b => ⟨some b, Call.context (w.call b state.context)⟩

/-- A handle is replaced, but never lost. -/
theorem Visit.handle_step {name : String} {codec : Codec R} {state : Standing σ R}
    (h : state.handle.isSome) (visit : Visit σ R) :
    (visit.step name codec state).handle.isSome := by
  obtain ⟨handle, c⟩ := state
  cases visit with
  | reopen indices =>
    rw [step]
    cases Call.openBucket ⟨name, indices⟩ codec c with
    | ok b c' => rfl
    | error stop c' => exact h
  | write w =>
    cases handle with
    | none => exact h
    | some b => rfl

theorem Visit.handle_run {name : String} {codec : Codec R} {state : Standing σ R}
    (h : state.handle.isSome) (visits : List (Visit σ R)) :
    (visits.foldl (step name codec) state).handle.isSome := by
  induction visits generalizing state with
  | nil => exact h
  | cons visit rest ih => exact ih (visit.handle_step h)

/-- The mutators of a visit leave the store as it is. -/
def Visit.Tame : Visit σ R → Prop
  | reopen _ => True
  | write w => w.Mutators Mutator.Tame

/-- The store is empty until a handle is opened, and settled from then on. -/
def Standing.Settled (name : String) (codec : Codec R) (state : Standing σ R) : Prop :=
  match state.handle with
  | none => state.context.Quiet ∧ state.context.store = .empty
  | some b => b.name = name ∧ b.codec = codec ∧ ∃ m, b.Settled state.context m

namespace Standing

variable {name : String} {codec : Codec R} {state : Standing σ R}

theorem Settled.reopen (hlawful : codec.Lawful) (h : state.Settled name codec)
    (indices : List String) :
    ((Visit.reopen indices).step name codec state).Settled name codec := by
  obtain ⟨handle, c⟩ := state
  cases handle with
  | none =>
    obtain ⟨hc, hempty⟩ := h
    rw [Visit.step]
    cases hvalid : (⟨name, indices⟩ : BucketConfig).validate with
    | error e =>
      rw [Call.openBucket_invalid hvalid]
      exact ⟨hc, hempty⟩
    | ok _ =>
      -- The first handle finds an empty store.
      obtain ⟨b, c', hopen, hconfig, rfl, hshows, hmetadata⟩ :=
        Call.openBucket_empty hvalid codec hc hempty
      rw [hopen]
      have hname : b.name = name := by rw [Bucket.name, hconfig]
      have hindices : b.indices = indices := by rw [Bucket.indices, hconfig]
      refine ⟨hname, rfl, .empty, ⟨by rw [hconfig, hvalid], hshows, ?_⟩⟩
      rw [hconfig, hindices]
      exact hmetadata
  | some b =>
    obtain ⟨rfl, rfl, m, hb⟩ := h
    have hopen := hb.reopen hlawful ⟨b.name, indices⟩ rfl
    rw [Visit.step]
    cases hrun : Call.openBucket ⟨b.name, indices⟩ b.codec c with
    | error stop c' =>
      rw [hrun] at hopen
      exact ⟨rfl, rfl, m, hopen⟩
    | ok b' c' =>
      rw [hrun] at hopen
      obtain ⟨hconfig, hcodec, hb'⟩ := hopen
      have hname : b'.name = b.name := by rw [Bucket.name, hconfig]
      exact ⟨hname, hcodec, m, hb'⟩

theorem Settled.write (hlawful : codec.Lawful) (h : state.Settled name codec) {w : Write σ R}
    (hw : w.Mutators Mutator.Tame) :
    ((Visit.write w).step name codec state).Settled name codec := by
  obtain ⟨handle, c⟩ := state
  cases handle with
  | none => exact h
  | some b =>
    obtain ⟨rfl, rfl, m, hb⟩ := h
    change b.Settled c m at hb
    have hstep := hb.write hlawful hw
    have hsettled : ∃ m', b.Settled (Call.context (w.call b c)) m' := by
      cases hmap : w.onMap? (b.codec.accepts b.indices) c m with
      | some m' =>
        rw [hmap] at hstep
        obtain ⟨c', hrun, hb', -⟩ := hstep
        rw [hrun]
        exact ⟨m', hb'⟩
      | none =>
        rw [hmap] at hstep
        obtain ⟨stop, c', hrun, hb'⟩ := hstep
        rw [hrun]
        exact ⟨m, hb'⟩
    exact ⟨rfl, rfl, hsettled⟩

/-- **Visits** leave what is settled settled. -/
theorem Settled.run (hlawful : codec.Lawful) (h : state.Settled name codec)
    {visits : List (Visit σ R)} (hvisits : ∀ visit ∈ visits, visit.Tame) :
    (visits.foldl (Visit.step name codec) state).Settled name codec := by
  induction visits generalizing state with
  | nil => exact h
  | cons visit rest ih =>
    obtain ⟨hvisit, hrest⟩ := List.forall_mem_cons.mp hvisits
    rw [List.foldl_cons]
    refine ih ?_ hrest
    cases visit with
    | reopen indices => exact h.reopen hlawful indices
    | write w => exact h.write hlawful hvisit

end Standing

/-! ## What is left of a history -/

/-- The tables that a bucket works on. -/
def BucketConfig.tables (config : BucketConfig) : List String :=
  config.name :: config.metadataName :: config.indices

namespace Bucket

variable {b : Bucket R} {c : Context σ} {m : RecordMap R}

/-- The tables of settled buckets with the same configuration and the same map are the same. -/
theorem Settled.table?_eq (hb : b.Settled c m) {fresh : Bucket R} {c' : Context σ}
    (hconfig : fresh.config = b.config) (hcodec : fresh.codec = b.codec)
    (hfresh : fresh.Settled c' m) :
    ∀ name ∈ b.config.tables, c.store.table? name = c'.store.table? name := by
  have hholds := hfresh.holds
  have hmetadata := hfresh.metadata
  rw [indices, hconfig] at hmetadata
  rw [hconfig, hcodec] at hholds
  intro name hname
  rcases List.mem_cons.mp hname with rfl | hname
  · rw [hb.holds.primary, hholds.primary]
  · rcases List.mem_cons.mp hname with rfl | hindex
    · rw [hb.metadata, hmetadata, indices]
    · rw [hb.holds.index name hindex, hholds.index name hindex]

/-- A fresh bucket gets the tables of a settled one by one insert. -/
theorem Settled.reload (hlawful : b.codec.Lawful) (hb : b.Settled c m) {c₀ : Context σ}
    (hc₀ : c₀.Quiet) (hempty : c₀.store = .empty) :
    ∃ fresh c₁ c₂, Call.openBucket b.config b.codec c₀ = .ok fresh c₁ ∧
      fresh.insert m.values c₁ = .ok () c₂ ∧
      ∀ name ∈ b.config.tables, c.store.table? name = c₂.store.table? name := by
  obtain ⟨-, -, h, -, hk⟩ := hb.shows
  obtain ⟨fresh, c₁, hopen, hconfig, hcodec, hshows, hmetadata⟩ :=
    Call.openBucket_empty hb.valid b.codec hc₀ hempty
  have hindices : fresh.indices = b.indices := by rw [indices, indices, hconfig]
  have hfresh : fresh.Settled c₁ .empty := by
    refine ⟨by rw [hconfig]; exact hb.valid, hshows, ?_⟩
    rw [hconfig, hindices]
    exact hmetadata
  have hinsert := hfresh.write (hcodec ▸ hlawful) (w := .insert m.values) trivial
  have hadmitted : RecordMap.insertAll? (fresh.codec.accepts fresh.indices) .empty m.values
      = some m := by
    rw [hcodec, hindices]
    exact hk.keyed.insertAll?_values hk.nonempty hk.accepted
  rw [Write.onMap?, hadmitted] at hinsert
  obtain ⟨c₂, hrun, hloaded, -⟩ := hinsert
  exact ⟨fresh, c₁, c₂, hopen, hrun, hb.table?_eq hconfig hcodec hloaded⟩

/-- A scrub of a settled bucket finds nothing. -/
theorem Settled.verify_consistent (hlawful : b.codec.Lawful) (hb : b.Settled c m) :
    ∃ report log, b.verify c = .ok report { c with log } ∧ report.consistent = true := by
  obtain ⟨-, -, h, -, hk⟩ := hb.shows
  have hdecode := Contents.decode_rows (hk.recovers hlawful)
  have hkind : ∀ index ∈ b.indices, ∀ t, c.store.table? index = some t → t.kind = .index := by
    intro index hindex t ht
    rw [hb.holds.index index hindex] at ht
    cases ht
    rfl
  obtain ⟨report, log, hrun, -, hexact⟩ := b.verify_ok hb.shows.quiet hb.holds.primary hdecode
    (fun r hr => hk.fits hr) hkind
  have hconsistent := (hexact.consistent_iff hkind).mpr fun index hindex =>
    hb.holds.index index hindex
  exact ⟨report, log, hrun, hconsistent⟩

/-- Reindexing a settled bucket changes no table. -/
theorem Settled.reindex_eq (hlawful : b.codec.Lawful) (hb : b.Settled c m) :
    ∃ c', b.reindex c = .ok () c' ∧ c'.store = c.store := by
  have hstep := hb.write hlawful (w := .reindex) trivial
  obtain ⟨c', hrun, -, hstore⟩ := hstep
  exact ⟨c', hrun, hstore.trans hb.holds.place_eq⟩

/-- All records of a settled bucket are listed. -/
theorem Settled.list_all (hlawful : b.codec.Lawful) (hb : b.Settled c m) :
    b.list 0 none c = .ok (m.values, m.values.length) c := by
  obtain ⟨-, hc, h, hs, hk⟩ := hb.shows
  have hlist := b.list_ok hc (hk.recovers hlawful) hs hk 0 none
  have hsize : m.size = m.values.length := by
    rw [OrderedMap.size, OrderedMap.values, List.length_map]
  rw [hlist, hsize]
  rfl

/-- **The history of a bucket does not show.** Start from an empty store and open a bucket with
whatever indices, change it, and open it again, in any order and as often as may be. Then the tables
that the current handle works on are those of a fresh bucket with the same indices after one insert
of the current records; a scrub finds nothing, and reindexing changes nothing. -/
theorem history_independent {codec : Codec R} (hlawful : codec.Lawful) {c₀ : Context σ}
    (hc₀ : c₀.Quiet) (hempty : c₀.store = .empty) (name : String) {visits : List (Visit σ R)}
    (hvisits : ∀ visit ∈ visits, visit.Tame)
    (hend : visits.foldl (Visit.step name codec) ⟨none, c₀⟩ = ⟨some b, c⟩) :
    ∃ records, b.list 0 none c = .ok (records, records.length) c ∧
      (∀ c₁ : Context σ, c₁.Quiet → c₁.store = .empty → ∃ fresh c₂ c₃,
        Call.openBucket b.config codec c₁ = .ok fresh c₂ ∧ fresh.insert records c₂ = .ok () c₃ ∧
        ∀ table ∈ b.config.tables, c.store.table? table = c₃.store.table? table) ∧
      (∃ report log, b.verify c = .ok report { c with log } ∧ report.consistent = true) ∧
      ∃ c', b.reindex c = .ok () c' ∧ c'.store = c.store := by
  have hstart : (⟨none, c₀⟩ : Standing σ R).Settled name codec := ⟨hc₀, hempty⟩
  have hsettled := hstart.run hlawful hvisits
  rw [hend] at hsettled
  obtain ⟨-, rfl, m, hb⟩ := hsettled
  change b.Settled c m at hb
  exact ⟨m.values, hb.list_all hlawful, fun c₁ hc₁ hfresh => hb.reload hlawful hc₁ hfresh,
    hb.verify_consistent hlawful, hb.reindex_eq hlawful⟩

end Bucket

/-! ### An index that comes back -/

/-- Words are changed while one of the indices is not in use. -/
def Visit.returning : List (Visit Unit Word) :=
  [.reopen ["initial"], .write (.insert [⟨[7, 8]⟩, ⟨[8]⟩]), .reopen ["letter"],
    .write (.delete [[8]]), .write (.update [⟨[7, 8]⟩] .reversing), .reopen ["letter", "initial"]]

theorem Bucket.history_independent_returning :
    let c₀ : Context Unit := Call.quiet .empty [] ()
    Codec.words.Lawful ∧ c₀.Quiet ∧ c₀.store = .empty ∧ (∀ visit ∈ Visit.returning, visit.Tame) ∧
      ∃ b c, Visit.returning.foldl (Visit.step "words" .words) ⟨none, c₀⟩ = ⟨some b, c⟩ ∧
      ∃ records, b.list 0 none c = .ok (records, records.length) c ∧
        (∀ c₁ : Context Unit, c₁.Quiet → c₁.store = .empty → ∃ fresh c₂ c₃,
          Call.openBucket b.config .words c₁ = .ok fresh c₂ ∧
          fresh.insert records c₂ = .ok () c₃ ∧
          ∀ table ∈ b.config.tables, c.store.table? table = c₃.store.table? table) ∧
        (∃ report log, b.verify c = .ok report { c with log } ∧ report.consistent = true) ∧
        ∃ c', b.reindex c = .ok () c' ∧ c'.store = c.store := by
  intro c₀
  have hc₀ : c₀.Quiet := Context.quiet_quiet _ _ _
  have hvisits : ∀ visit ∈ Visit.returning, visit.Tame := by
    simp only [Visit.returning, List.forall_mem_cons, List.not_mem_nil, false_implies,
      implies_true, and_true]
    exact ⟨trivial, trivial, trivial, trivial, Mutator.reversing_tame, trivial⟩
  have hfirst : ((Visit.reopen ["initial"]).step "words" .words
      (⟨none, c₀⟩ : Standing Unit Word)).handle.isSome := by
    have hvalid : (⟨"words", ["initial"]⟩ : BucketConfig).validate = .ok () := rfl
    obtain ⟨b, c', hopen, -⟩ := Call.openBucket_empty hvalid Codec.words hc₀ rfl
    rw [Visit.step, hopen]
    rfl
  have hhandle : (Visit.returning.foldl (Visit.step "words" .words)
      (⟨none, c₀⟩ : Standing Unit Word)).handle.isSome := by
    rw [Visit.returning, List.foldl_cons]
    exact Visit.handle_run hfirst _
  generalize hend : Visit.returning.foldl (Visit.step "words" .words)
    (⟨none, c₀⟩ : Standing Unit Word) = final at hhandle
  obtain ⟨handle, c⟩ := final
  obtain ⟨b, rfl⟩ := Option.isSome_iff_exists.mp hhandle
  exact ⟨Codec.words_lawful, hc₀, rfl, hvisits, b, c, rfl,
    Bucket.history_independent Codec.words_lawful hc₀ rfl "words" hvisits hend⟩

end IndexedStore
