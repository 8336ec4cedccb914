import IndexedStore.Proofs.Reconciling
import IndexedStore.Proofs.Reopening
import IndexedStore.Proofs.Sparing
import IndexedStore.Record.Word

set_option autoImplicit false

/-! # One opening after the other

A store that came about by opening buckets and calling them (`Reached`) has a memory of the openings
in its descriptors: under each name, the one that is stored names the indices that a bucket of the
name was last opened with (`Reached.recorded`). An opening that fails is not remembered, and no call
in between makes a difference, whatever the handle and the kind of records are. So the chain has no
gaps: what an opening reports as the indices before are those of the opening before. Only a mutator
could make a difference, by writing a descriptor itself, and it is asked not to. -/

namespace IndexedStore

/-! ## Stores that come about -/

/-- The indices that a bucket of each name was last opened with, if one was. -/
abbrev Openings := String → Option (List String)

/-- The openings up to one with a configuration. -/
def Openings.note (openings : Openings) (config : BucketConfig) : Openings :=
  fun name => if name = config.name then some config.indices else openings name

/-- The stores that come about from the empty one, with the openings on the way. Buckets are opened
and called in any order, in contexts of any kind. The mutators of updates have to spare the metadata
tables, since what they write there would be taken for an opening; all other tables are theirs to
change. Questions that have no cancellable form are not named, for they leave the store as it is. -/
inductive Reached : Store → Openings → Prop
  | empty : Reached .empty fun _ => none
  /-- A bucket is opened. -/
  | opened {R σ : Type} [Record R] {config : BucketConfig} {codec : Codec R} {c c' : Context σ}
      {b : Bucket R} {openings : Openings} (before : Reached c.store openings)
      (run : Call.openBucket config codec c = .ok b c') :
      Reached c'.store (openings.note config)
  /-- A bucket is not opened. -/
  | refused {R σ : Type} [Record R] {config : BucketConfig} {codec : Codec R} {c c' : Context σ}
      {stop : Stop} {openings : Openings} (before : Reached c.store openings)
      (run : Call.openBucket config codec c = .error stop c') : Reached c'.store openings
  /-- A bucket is called. -/
  | called {R σ α : Type} [Record R] {b : Bucket R} {op : Operation σ R α} {c : Context σ}
      {openings : Openings} (before : Reached c.store openings)
      (sparing : op.Mutators (Mutator.Within .sparing)) :
      Reached (Call.context (op.call b c)).store openings
  /-- A bucket is called through the facade for cancellable calls. -/
  | offloaded {R σ α : Type} [Record R] {b : Bucket R} {op : Operation σ R α} {c : Context σ}
      {openings : Openings} (before : Reached c.store openings)
      (sparing : op.Mutators (Mutator.Within .sparing)) :
      Reached (Call.context ((op.call b).offloaded c)).store openings

/-! ## What is remembered -/

/-- The descriptor under each name is that of the last opening, as long as no table of another kind
stands in the way. -/
def Openings.RecordedIn (openings : Openings) (s : Store) : Prop :=
  ∀ name, s.OfKind .metadata (name ++ metadataSuffix) →
    (s.metadataIn (name ++ metadataSuffix)).get? Descriptor.rowKey
      = (openings name).map fun indices => (Descriptor.ofIndices indices).toBytes

theorem Store.SparesAt.of_ofKind {s s' : Store} {name : String} (h : s.SparesAt s' name)
    (hkind : s'.OfKind .metadata name) : s'.table? name = s.table? name := by
  rcases h with he | ⟨t, ht, hother⟩
  · exact he
  · exact absurd (hkind t ht) hother

namespace Openings

variable {openings : Openings} {s s' : Store}

theorem RecordedIn.get?_of_sparesAt (h : openings.RecordedIn s) {name : String}
    (hs : s.SparesAt s' (name ++ metadataSuffix))
    (hkind : s'.OfKind .metadata (name ++ metadataSuffix)) :
    (s'.metadataIn (name ++ metadataSuffix)).get? Descriptor.rowKey
      = (openings name).map fun indices => (Descriptor.ofIndices indices).toBytes := by
  have hsame := hs.of_ofKind hkind
  rw [Store.metadataIn, hsame]
  exact h name fun t ht => hkind t (hsame ▸ ht)

/-- What is spared is remembered. -/
theorem RecordedIn.spared (h : openings.RecordedIn s) (hs : s.Spares s') :
    openings.RecordedIn s' :=
  fun _ hkind => h.get?_of_sparesAt (hs _) hkind

end Openings

namespace Openings.RecordedIn

variable {R σ : Type} [Record R] {openings : Openings} {config : BucketConfig} {codec : Codec R}
  {c c' : Context σ}

/-- **An opening reports the one before it.** -/
theorem previous_eq (h : openings.RecordedIn c.store) {r : Reconciliation}
    (hrun : Call.reconcile config codec c = .ok r c') : r.previous = openings config.name := by
  obtain ⟨-, hmetadata, previous, log, n, c₁, hprevious, -, -, rfl, -⟩ := Call.of_reconcile hrun
  have hrow := h config.name hmetadata
  cases hopened : openings config.name with
  | none =>
    rw [hopened] at hrow
    rw [BucketConfig.metadataName, Descriptor.stored, hrow] at hprevious
    cases hprevious
    rfl
  | some indices =>
    rw [hopened] at hrow
    rw [Descriptor.stored_eq hrow hprevious]
    rfl

/-- **An opening is remembered** under its name, and those of other names are not forgotten. -/
theorem note (h : openings.RecordedIn c.store) {r : Reconciliation}
    (hrun : Call.reconcile config codec c = .ok r c') :
    (openings.note config).RecordedIn c'.store := by
  obtain ⟨-, -, previous, log, n, c₁, -, hbuild, hmetadata, -, rfl⟩ := Call.of_reconcile hrun
  intro name hkind
  by_cases hname : name = config.name
  · subst hname
    have hrow : (c₁.store.described config).table? config.metadataName = some (.metadata _) :=
      (Store.table?_described hmetadata config.metadataName).trans (if_pos rfl)
    have hread := Store.metadataIn_eq hrow
    rw [BucketConfig.metadataName] at hread
    rw [hread, OrderedMap.get?_insert, if_pos rfl, Openings.note, if_pos rfl]
    rfl
  · have hother : name ++ metadataSuffix ≠ config.metadataName := fun he =>
      hname ((String.append_left_inj metadataSuffix).mp he)
    rw [Openings.note, if_neg hname]
    refine h.get?_of_sparesAt ?_ hkind
    have hprimary := c.store.spares_opened .primary config.name (by decide)
      (name ++ metadataSuffix)
    have hready : (c.store.opened .primary config.name).SparesAt (c.store.ready config)
        (name ++ metadataSuffix) := by
      rw [Store.SparesAt, Store.ready, Store.table?_opened, if_neg hother]
      exact .inl rfl
    have hbuilt := Call.build_spares _ _ _ _ _ _ hbuild (name ++ metadataSuffix)
    have hdescribed : c₁.store.SparesAt (c₁.store.described config) (name ++ metadataSuffix) := by
      rw [Store.SparesAt, Store.table?_described hmetadata, if_neg hother]
      exact .inl rfl
    exact ((hprimary.trans hready).trans hbuilt).trans hdescribed

/-- A call that spares the metadata tables if it succeeds, and undoes what it did if it stops,
forgets nothing. -/
theorem called {α : Type} (h : openings.RecordedIn c.store) {x : Call σ α}
    (hspares : x.Within .sparing) (hreverts : x.Reverts) : openings.RecordedIn (Call.context (x c)).store := by
  cases hrun : x c with
  | ok a c' => exact h.spared (hspares c a c' hrun)
  | error stop c' => exact h.spared (.of_eq (hreverts c stop c' hrun))

end Openings.RecordedIn

/-- **However a store came about**, its descriptors are those of the last openings. -/
theorem Reached.recorded {s : Store} {openings : Openings} (h : Reached s openings) :
    openings.RecordedIn s := by
  induction h with
  | empty => exact fun _ _ => rfl
  | opened _ run ih =>
    obtain ⟨-, -, -, c₁, log, hreconcile, rfl⟩ := Call.of_openBucket run
    have hrecorded := ih.note hreconcile
    exact hrecorded
  | refused _ run ih =>
    exact ih.spared (.of_eq (Call.openBucket_reverts _ _ _ _ _ run))
  | called _ sparing ih => exact ih.called (Operation.spares _ sparing) (Operation.reverts _ _)
  | offloaded _ sparing ih =>
    exact ih.called (.offloaded (Operation.spares _ sparing)) (.offloaded (Operation.reverts _ _))

/-! ## What becomes of an opening -/

/-- **The outcome of opening a bucket**, whatever the store is on which it succeeds. The report is
true of the store before, the tables are in line with the configuration, opening again with the same
configuration does nothing and says so, and the indices that are reported as those before are those
of the last opening under the name, on the way that the store came about. -/
theorem Call.openBucket_outcome {R σ : Type} [Record R] {config : BucketConfig}
    (hsized : config.Sized) {codec : Codec R} {c c' : Context σ} (hc : c.Quiet) {b : Bucket R}
    (h : openBucket config codec c = .ok b c') :
    b.reconciliation.Reports c.store config ∧
    c'.store.InLine c.store config codec b.reconciliation.rebuilt ∧
    Descriptor.stored (c'.store.metadataIn config.metadataName)
      = .ok (some (Descriptor.ofIndices config.indices)) ∧
    (∃ b' c'', openBucket config codec c' = .ok b' c'' ∧
      b'.reconciliation = ⟨some config.indices, [], [], 0⟩ ∧ c''.store = c'.store) ∧
    ∀ openings, Reached c.store openings → b.reconciliation.previous = openings config.name := by
  obtain ⟨hvalid, -, -, c₁, log, hreconcile, rfl⟩ := of_openBucket h
  have hd := config.disjoint_of_validate hvalid
  obtain ⟨hquiet, hinLine⟩ := inLine_of_reconcile hc hd hreconcile
  exact ⟨reports_of_reconcile hc hd hreconcile, hinLine, hinLine.descriptor hsized,
    openBucket_inLine (hquiet.setLog log) hvalid hsized hinLine,
    fun openings hreached => hreached.recorded.previous_eq hreconcile⟩

/-! ### Words that are filed in one index and then in another -/

theorem Call.openBucket_outcome_words :
    let first : BucketConfig := ⟨"words", ["initial"]⟩
    let second : BucketConfig := ⟨"words", ["letter"]⟩
    ∃ (c c' : Context Unit) (b : Bucket Word) (openings : Openings), second.Sized ∧ c.Quiet ∧
      openBucket second .words c = .ok b c' ∧ Reached c.store openings ∧
      openings "words" = some first.indices ∧
      b.reconciliation = ⟨some ["initial"], ["letter"], ["initial"], 1⟩ ∧
      c'.store.InLine c.store second .words ["letter"] ∧
      ∃ b' c'', openBucket second .words c' = .ok b' c'' ∧
        b'.reconciliation = ⟨some ["letter"], [], [], 0⟩ ∧ c''.store = c'.store := by
  intro first second
  have hfirst : first.validate = .ok () := rfl
  obtain ⟨⟨config, codec, r⟩, c₁, hopen, hconfig, hcodec, hshows, hmetadata⟩ :=
    openBucket_empty hfirst .words (Context.quiet_quiet .empty [] ()) rfl
  dsimp only at hconfig hcodec
  subst hconfig hcodec
  let b₁ : Bucket Word := ⟨first, .words, r⟩
  let openings : Openings := Openings.note (fun _ => none) first
  have hreached : Reached c₁.store openings := .opened .empty hopen
  -- A word is inserted through the first handle.
  have hsettled : b₁.Settled c₁ .empty := ⟨hfirst, hshows, hmetadata⟩
  have hinsert := hsettled.write Codec.words_lawful (w := .insert [⟨[7, 8]⟩]) trivial
  have hmap : (Write.insert [⟨[7, 8]⟩] : Write Unit Word).onMap?
      (b₁.codec.accepts b₁.indices) c₁ .empty = some (.ofList [([7, 8], ⟨[7, 8]⟩)]) := by
    show RecordMap.insertAll? (Codec.words.accepts ["initial"]) .empty [⟨[7, 8]⟩] = _
    decide +kernel
  rw [hmap] at hinsert
  obtain ⟨c, hrun, hc, -⟩ := hinsert
  have hcalled : Reached c.store openings := by
    have hcall : Reached (context ((Operation.write (.insert [⟨[7, 8]⟩])).call b₁ c₁)).store
      openings := hreached.called trivial
    rwa [Operation.call, hrun] at hcall
  -- The second opening finds the word and the descriptor of the first.
  have hfirstSized : first.Sized := by decide +kernel
  have hsized : second.Sized := by decide +kernel
  obtain ⟨b, c', hagain⟩ : ∃ b c', openBucket second .words c = .ok b c' :=
    hc.reopen_ok Codec.words_lawful hfirstSized rfl rfl (by decide +kernel)
  obtain ⟨⟨_, hrebuilt, horphaned, hscanned⟩, hinLine, -, hsettle, hchain⟩ :=
    openBucket_outcome hsized hc.shows.quiet hagain
  have hprevious : b.reconciliation.previous = some ["initial"] := hchain _ hcalled
  rw [hprevious] at hrebuilt horphaned
  have hbuilt : b.reconciliation.rebuilt = ["letter"] := hrebuilt
  have hunused : b.reconciliation.orphaned = ["initial"] := horphaned
  have hread : b.reconciliation.recordsScanned = 1 := by
    have hstored := (hc.table?_of_name (rfl : second.name = b₁.name)).1
    rw [hscanned, hbuilt, Store.rowsIn_eq hstored, OrderedMap.size_mapValues]
    decide +kernel
  have hreport : b.reconciliation = ⟨some ["initial"], ["letter"], ["initial"], 1⟩ := by
    rw [← hprevious, ← hbuilt, ← hunused, ← hread]
  exact ⟨c, c', b, openings, hsized, hc.shows.quiet, hagain, hcalled, rfl, hreport,
    hbuilt ▸ hinLine, hsettle⟩

end IndexedStore
