import IndexedStore.Proofs.Reconciling
import IndexedStore.Proofs.Within

set_option autoImplicit false

/-! # The footprint of a call

A call on a bucket touches the tables that the configuration of its handle names, and no others. A
call that reads leaves these too. One that edits the bucket finds its primary table and the tables
of all its indices as what they are, and leaves them so (`Store.Edited`). A reindex leaves the rows
and makes every index a table of its own (`Store.Refilled`); opening leaves the rows, makes tables
of the indices that are built and writes the descriptor (`Store.Opening`). All this holds in
whatever context a call succeeds; and one that fails leaves everything (`Operation.reverts`).

The mutator of an update runs in its transaction and may change any table. So what is said here of
an edit is said of the tables that mutators leave as they are, which are given as the names that are
spared: of all tables, if all names are.

What a call asks of the tables it comes to is not the same for all of them (`Operation.Found`). A
reindex asks nothing of the tables that it is to replace, and neither does opening. -/

namespace IndexedStore

variable {R σ α : Type}

/-! ## What a call leaves -/

namespace Store

/-- A store is another one after a bucket was edited, and a mutator may have changed tables other
than those of the names that are spared. -/
structure Edited (s' s : Store) (config : BucketConfig) (spared : String → Prop) : Prop where
  /-- The name of the bucket stands for no table of another kind, before and after. -/
  primary : s.OfKind .primary config.name ∧ s'.OfKind .primary config.name
  /-- Every index has a table, before (if no mutator has made one) and after. -/
  index : ∀ index ∈ config.indices,
    (spared index → ∃ entries, s.table? index = some (.index entries)) ∧
      ∃ entries, s'.table? index = some (.index entries)
  /-- No table that is spared was lost. -/
  lasting : ∀ name, spared name → s.table? name ≠ none → s'.table? name ≠ none
  /-- All other tables that are spared are as they were, that of the descriptor among them. -/
  other : ∀ name, spared name → name ≠ config.name → name ∉ config.indices →
    s'.table? name = s.table? name

/-- A store is another one after indices were built from the rows of a bucket. -/
structure Refilled (s' s : Store) (config : BucketConfig) : Prop where
  /-- The name of the bucket stood for no table of another kind. -/
  kind : s.OfKind .primary config.name
  /-- The rows are those that were there. -/
  rows : s'.table? config.name = some (.primary (s.rowsIn config.name))
  /-- Every index has a table, whatever had its name before. -/
  index : ∀ index ∈ config.indices, ∃ entries, s'.table? index = some (.index entries)
  /-- All other tables are as they were, that of the descriptor among them. -/
  other : ∀ name, name ≠ config.name → name ∉ config.indices → s'.table? name = s.table? name

/-- A store is another one after a bucket was opened, where `built` are the indices that were
built. -/
structure Opening (s' s : Store) (config : BucketConfig) (built : List String) : Prop where
  /-- Only indices of the configuration were built. -/
  configured : ∀ index ∈ built, index ∈ config.indices
  /-- The names of the bucket and its metadata table stood for no tables of other kinds. -/
  kinds : s.OfKind .primary config.name ∧ s.OfKind .metadata config.metadataName
  /-- The rows are those that were there. -/
  rows : s'.table? config.name = some (.primary (s.rowsIn config.name))
  /-- The metadata table has one row more, or another one. -/
  metadata : s'.table? config.metadataName = some (.metadata
    ((s.metadataIn config.metadataName).insert Descriptor.rowKey
      (Descriptor.ofIndices config.indices).toBytes))
  /-- An index that was built has a table, whatever had its name before. -/
  index : ∀ index ∈ built, ∃ entries, s'.table? index = some (.index entries)
  /-- All other tables are as they were. -/
  other : ∀ name, name ≠ config.name → name ≠ config.metadataName → name ∉ built →
    s'.table? name = s.table? name

end Store

namespace Call

variable [Record R] {c c' : Context σ} {config : BucketConfig} {codec : Codec R} {n : Nat}

/-- **A rebuild** leaves the rows, if the bucket is not named like one of the indices. -/
theorem refilled_of_rebuild (hname : config.name ∉ config.indices)
    (h : rebuild config.name codec config.indices c = .ok n c') :
    c'.store.Refilled c.store config := by
  obtain ⟨hkind, s, hthere, hother, hfiled⟩ := of_rebuild h
  have hdropped : ∀ name, name ∉ config.indices →
      (config.indices.foldl Store.drop c.store).table? name = c.store.table? name :=
    fun name hnot => by rw [Store.table?_dropEach, if_neg hnot]
  have hleft : ∀ name, name ∉ config.indices → c'.store.table? name = s.table? name :=
    hfiled (.leaving fun name => name ∉ config.indices)
      (Frame.leaving_files fun _ hindex hnot => hnot hindex)
  refine ⟨fun t ht => hkind t (hdropped _ hname ▸ ht), ?_, fun index hindex =>
    hfiled .filing (Frame.filing_files _) index (hthere index hindex), fun name hne hnot => ?_⟩
  · have hrows : (config.indices.foldl Store.drop c.store).rowsIn config.name
        = c.store.rowsIn config.name := by
      simp only [Store.rowsIn, hdropped _ hname]
    rw [hleft _ hname, hother _ hname, Store.table?_opened_primary hkind, hrows]
  · rw [hleft name hnot, hother name hnot, Store.table?_opened, if_neg hne, hdropped name hnot]

/-- Building indices leaves the rows of a table that is there. -/
theorem refilled_of_build {indices : List String} (hname : config.name ∉ indices)
    {rows : OrderedMap Bytes Bytes} (hrows : c.store.table? config.name = some (.primary rows))
    (h : build config codec indices c = .ok n c') :
    c'.store.Refilled c.store ⟨config.name, indices⟩ := by
  unfold build at h
  split at h
  · next hempty =>
    cases h
    obtain rfl := List.isEmpty_iff.mp hempty
    exact ⟨Store.ofKind_of_table? hrows, by rw [Store.rowsIn_eq hrows]; exact hrows,
      fun index hindex => (by cases hindex), fun _ _ _ => rfl⟩
  · obtain ⟨m, c₁, hrebuild, hlog⟩ := of_bind_ok h
    cases hlog
    have hrefilled : c₁.store.Refilled c.store ⟨config.name, indices⟩ :=
      refilled_of_rebuild hname hrebuild
    exact ⟨hrefilled.kind, hrefilled.rows, hrefilled.index, hrefilled.other⟩

/-- **Opening** leaves the rows and all tables but those of the bucket. -/
theorem opening_of_openBucket {b : Bucket R} (h : openBucket config codec c = .ok b c') :
    c'.store.Opening c.store config b.reconciliation.rebuilt := by
  obtain ⟨hvalid, -, -, c₁, log, hreconcile, rfl⟩ := of_openBucket h
  have hd := config.disjoint_of_validate hvalid
  obtain ⟨hprimary, hmetadata, previous, log', m, c₂, -, hbuild, hkind, hreport, rfl⟩ :=
    of_reconcile hreconcile
  have hd' := hd.building previous (c.store.ready config).names
  have hrefilled : c₂.store.Refilled (c.store.ready config)
      (config.building previous (c.store.ready config).names) :=
    refilled_of_build hd'.primary (Store.table?_ready_primary hprimary) hbuild
  rw [hreport]
  dsimp only
  have hstays : c₂.store.table? config.metadataName
      = some (.metadata (c.store.metadataIn config.metadataName)) := by
    rw [hrefilled.other _ hd.own hd'.metadata]
    exact Store.table?_ready_metadata hmetadata
  have hrowsIn : (c.store.ready config).rowsIn config.name = c.store.rowsIn config.name :=
    Store.rowsIn_eq (Store.table?_ready_primary hprimary)
  refine ⟨config.unbuilt_subset previous _, ⟨hprimary, hmetadata⟩, ?_, ?_, fun index hindex => ?_,
    fun name hname hmeta hnot => ?_⟩
  · rw [Store.table?_described hkind, if_neg hd.own.symm, ← hrowsIn]
    exact hrefilled.rows
  · rw [Store.table?_described hkind, if_pos rfl, Store.metadataIn_eq hstays]
  · have hmeta : index ≠ config.metadataName := fun he => hd'.metadata (he ▸ hindex)
    rw [Store.table?_described hkind, if_neg hmeta]
    exact hrefilled.index index hindex
  · rw [Store.table?_described hkind, if_neg hmeta, hrefilled.other name hname hnot]
    exact Store.table?_ready hname hmeta

end Call

/-! ## What a call asks of tables -/

/-- What the tables that a call comes to are, where it succeeds. Of the index tables of an update this
is known if its mutator leaves them as they are. -/
def Operation.Found (b : Bucket R) (s : Store) (spared : String → Prop) : Operation σ R α → Prop
  | write .reindex => s.OfKind .primary b.name
  | write (.update _ _) => s.OfKind .primary b.name ∧
      ∀ index ∈ b.indices, spared index → ∃ entries, s.table? index = some (.index entries)
  | write (.insert _) | write (.delete _) => s.OfKind .primary b.name ∧
      ∀ index ∈ b.indices, ∃ entries, s.table? index = some (.index entries)
  | readIndex index _ => ∃ entries, s.table? index = some (.index entries)
  | verify => (∃ rows, s.table? b.name = some (.primary rows)) ∧
      ∀ index ∈ b.indices, s.OfKind .index index
  | read _ | readRaw _ | list _ _ => ∃ rows, s.table? b.name = some (.primary rows)

namespace Call

variable {c c' : Context σ} {name : String} {indices : List String}

/-- A transaction that was committed and logged. -/
theorem of_logged {x : Call σ α} {event : α → Event} (h : (do
      look
      let a ← atomically x
      log (event a) : Call σ Unit) c = .ok () c') :
    ∃ c₁ a c₂, c₁.store = c.store ∧ x c₁ = .ok a c₂ ∧ c'.store = c₂.store ∧
      c'.log = c₂.log ++ [event a] := by
  obtain ⟨⟨⟩, c₁, hlook, h⟩ := of_bind_ok h
  obtain ⟨a, c₂, hatomic, h⟩ := of_bind_ok h
  cases h
  exact ⟨c₁, a, c₂, Reads.look.of_ok hlook, of_atomically_ok hatomic, rfl, rfl⟩

/-- Opening a primary table makes no index table. -/
theorem index_of_opened {s : Store} (hkind : s.OfKind .primary name) {index : String}
    {entries : OrderedSet Bytes}
    (h : (s.opened .primary name).table? index = some (.index entries)) :
    s.table? index = some (.index entries) := by
  rw [Store.table?_opened] at h
  split at h
  · cases ht : s.table? name with
    | none =>
      rw [ht] at h
      cases h
    | some t =>
      have hprimary := hkind t ht
      rw [ht] at h
      cases h
      cases hprimary
  · exact h

/-- A sequence that opens the tables of a bucket for writing and succeeds. -/
theorem of_openBoth {x : Call σ α} {a : α} (h : (do
      openTable .primary name
      openIndices indices
      x : Call σ α) c = .ok a c') :
    c.store.OfKind .primary name ∧
      ∀ index ∈ indices, ∃ entries, c.store.table? index = some (.index entries) := by
  obtain ⟨⟨⟩, c₁, hopen, h⟩ := of_bind_ok h
  obtain ⟨hkind, rfl⟩ := of_openTable hopen
  obtain ⟨⟨⟩, c₂, hopen, -⟩ := of_bind_ok h
  refine ⟨hkind, fun index hindex => ?_⟩
  obtain ⟨entries, hentries⟩ := (of_openIndices hopen).1 index hindex
  exact ⟨entries, index_of_opened hkind hentries⟩

theorem of_indexTable {index : String} {entries : OrderedSet Bytes}
    (h : Bucket.indexTable index c = .ok entries c') :
    c.store.table? index = some (.index entries) := by
  rw [Bucket.indexTable, bind_ok (store_run c), Store.readIndex] at h
  cases ht : c.store.table? index with
  | none =>
    rw [ht] at h
    cases h
  | some t =>
    rw [ht] at h
    cases t with
    | index entries' =>
      cases h
      rfl
    | primary rows => cases h
    | metadata rows => cases h

/-- Tables that were compared are absent or index tables. -/
theorem ofKind_of_compareEach {expected : Bucket.Expected} {findings : List IndexIntegrity}
    (h : Bucket.compareEach expected indices c = .ok findings c') :
    ∀ index ∈ indices, c.store.OfKind .index index := by
  induction indices generalizing c findings with
  | nil => exact fun index hindex => by cases hindex
  | cons index rest ih =>
    obtain ⟨finding, c₁, hcompare, h⟩ := of_bind_ok h
    have hsame := (Reads.stepwise.compareIndex _ _).of_ok hcompare
    obtain ⟨more, c₂, hrest, hend⟩ := of_bind_ok h
    cases hend
    refine List.forall_mem_cons.mpr ⟨fun t ht => ?_, hsame ▸ ih hrest⟩
    rw [Bucket.compareIndex, bind_ok (store_run c), Store.readIndex, ht] at hcompare
    cases t with
    | index entries => rfl
    | primary rows => cases hcompare
    | metadata rows => cases hcompare

end Call

variable [Record R] {c c' : Context σ}

namespace Bucket

open Call

variable (b : Bucket R)

/-- Records that were replaced had the keys of the stored ones, and it was known what they call for. -/
theorem settled_of_replace {stored mutated : List R} {before : List (OrderedSet Bytes)}
    {counts : Nat × Nat} (h : b.replace stored before mutated c = .ok counts c') :
    firstDifference? (sortedKeys stored) (sortedKeys mutated) = none ∧
      ∃ after c₁, entriesByIndex mutated b.indices c = .ok after c₁ ∧
        (do
          openTable .primary b.name
          openIndices b.indices
          let counts ← refileEntries b.indices before after
          b.storeEach mutated
          look
          return counts : Call σ (Nat × Nat)) c₁ = .ok counts c' := by
  unfold replace at h
  cases hkeys : firstDifference? (sortedKeys stored) (sortedKeys mutated) with
  | some keys =>
    rw [hkeys] at h
    obtain ⟨_, _, hfail, -⟩ := of_bind_ok h
    cases hfail
  | none =>
    rw [hkeys] at h
    exact ⟨rfl, of_bind_ok h⟩

/-- Records that were replaced were so in tables that were found: none was made for them. -/
theorem of_replace {stored mutated : List R} {before : List (OrderedSet Bytes)}
    {counts : Nat × Nat} (h : b.replace stored before mutated c = .ok counts c') :
    c.store.OfKind .primary b.name ∧
      ∀ index ∈ b.indices, ∃ entries, c.store.table? index = some (.index entries) := by
  obtain ⟨-, after, c₁, hafter, hopened⟩ := b.settled_of_replace h
  rw [← (Reads.stepwise.entriesByIndex mutated b.indices).of_ok hafter]
  exact of_openBoth hopened

/-- **The stages of an update** that succeeds. Up to the mutator it only opens the primary table and
reads. -/
theorem of_update {records : List R} {mutator : Mutator σ R}
    (h : b.update records mutator c = .ok () c') :
    ∃ (c₁ c₂ c₃ c₄ c₅ c₆ : Context σ) (copies mutated : List R) (before : List (OrderedSet Bytes))
        (counts : Nat × Nat),
      c.store.OfKind .primary b.name ∧ c₁.store = c.store.opened .primary b.name ∧
      b.fetchEach [] records c₁ = .ok copies c₂ ∧
      entriesByIndex copies b.indices c₂ = .ok before c₃ ∧ c₄.store = c₁.store ∧
      mutate mutator copies c₄ = .ok mutated c₅ ∧
      b.replace copies before mutated c₅ = .ok counts c₆ ∧
      c'.store = c₆.store ∧ c'.log = c₆.log ++ [.updated counts.1 counts.2] := by
  rw [update_eq] at h
  obtain ⟨c₀, counts, c₆, hsame, hinside, hstore, hlog⟩ :=
    @of_logged σ (Nat × Nat) c c' _ (fun counts => .updated counts.1 counts.2) h
  obtain ⟨⟨⟩, c₁, hopen, hfetching⟩ := of_bind_ok hinside
  obtain ⟨hkind, hopened⟩ := of_openTable hopen
  obtain ⟨copies, c₂, hfetch, hasking⟩ := of_bind_ok hfetching
  obtain ⟨before, c₃, hbefore, hlooking⟩ := of_bind_ok hasking
  obtain ⟨⟨⟩, c₄, hlook, hmutating⟩ := of_bind_ok hlooking
  obtain ⟨mutated, c₅, hmutate, hreplace⟩ := of_bind_ok hmutating
  refine ⟨c₁, c₂, c₃, c₄, c₅, c₆, copies, mutated, before, counts, hsame ▸ hkind, ?_, hfetch,
    hbefore, ?_, hmutate, hreplace, hstore, hlog⟩
  · rw [hopened, hsame]
  · rw [Reads.look.of_ok hlook, (Reads.stepwise.entriesByIndex _ _).of_ok hbefore,
      (Reads.stepwise.fetchEach b _ _).of_ok hfetch]

end Bucket

/-! ## What edits leave -/

namespace Store

variable {s s₁ s' : Store} {config : BucketConfig} {spared : String → Prop}

/-- What edits leave is what all frames of edits say. -/
theorem edited_of_frames
    (hfound : s.OfKind .primary config.name ∧
      ∀ index ∈ config.indices, ∃ entries, s.table? index = some (.index entries))
    (h : ∀ F : Frame, F.Edits config → F.holds s s') : s'.Edited s config spared where
  primary := ⟨hfound.1, h _ (Frame.storing_edits config) hfound.1⟩
  index index hindex := ⟨fun _ => hfound.2 index hindex,
    h _ (Frame.filing_edits config) index (hfound.2 index hindex)⟩
  lasting name _ := h _ (Frame.lasting_edits config) name
  other name _ hname hnot := h _ (Frame.leaving_edits config) name ⟨hname, hnot⟩

/-- What was edited after its primary table was opened and a mutator has run. -/
theorem Edited.after_mutator (hkind : s.OfKind .primary config.name)
    (hleft : (Frame.leaving spared).holds (s.opened .primary config.name) s₁)
    (h : s'.Edited s₁ config spared) : s'.Edited s config spared where
  primary := ⟨hkind, h.primary.2⟩
  index index hindex := by
    refine ⟨fun hspared => ?_, (h.index index hindex).2⟩
    obtain ⟨entries, hentries⟩ := (h.index index hindex).1 hspared
    exact ⟨entries, Call.index_of_opened hkind ((hleft index hspared).symm.trans hentries)⟩
  lasting name hspared hthere := by
    refine h.lasting name hspared ?_
    rw [hleft name hspared]
    exact (Frame.lasting_edits config).opened s hkind name hthere
  other name hspared hname hnot := by
    rw [h.other name hspared hname hnot, hleft name hspared, table?_opened, if_neg hname]

end Store

/-- **An update** edits its bucket in what its mutator has left, and asks for the tables of the indices
then. -/
theorem Bucket.edited_of_update (b : Bucket R) {records : List R} {mutator : Mutator σ R}
    {spared : String → Prop} (hmutator : mutator.Within (.leaving spared))
    (h : b.update records mutator c = .ok () c') : c'.store.Edited c.store b.config spared := by
  obtain ⟨c₁, c₂, c₃, c₄, c₅, c₆, copies, mutated, before, counts, hkind, hopened, -, -, hread,
    hmutate, hreplace, hstore, -⟩ := b.of_update h
  have hleft := hmutator.mutate copies c₄ mutated c₅ hmutate
  rw [hread, hopened] at hleft
  have hedited : c₆.store.Edited c₅.store b.config spared :=
    Store.edited_of_frames (b.of_replace hreplace) fun F hF =>
      Call.Within.stepwise.replace b hF copies before mutated c₅ counts c₆ hreplace
  rw [hstore]
  exact hedited.after_mutator hkind hleft

/-- **What a call that succeeds has found.** Each table that it came to was of the kind that it was
opened as. -/
theorem Operation.found (b : Bucket R) {spared : String → Prop} {op : Operation σ R α}
    (hop : op.Mutators (Mutator.Within (.leaving spared))) {a : α}
    (hvalid : b.config.validate = .ok ()) (h : op.call b c = .ok a c') :
    op.Found b c.store spared := by
  cases op with
  | write w =>
    cases w with
    | insert records =>
      obtain ⟨c₁, _, c₂, hsame, hinside, -⟩ := Call.of_logged h
      exact hsame ▸ Call.of_openBoth hinside
    | update records mutator =>
      have hedited := b.edited_of_update hop h
      exact ⟨hedited.primary.1, fun index hindex => (hedited.index index hindex).1⟩
    | delete keys =>
      obtain ⟨c₁, _, c₂, hsame, hinside, -⟩ :=
        @Call.of_logged σ (Nat × Nat) c c' _ (fun counts => .deleted counts.1 counts.2) h
      exact hsame ▸ Call.of_openBoth hinside
    | reindex =>
      obtain ⟨c₁, _, c₂, hsame, hinside, -⟩ := Call.of_logged h
      obtain ⟨n, c₃, hrebuild, -⟩ := Call.of_bind_ok hinside
      exact hsame ▸ (Call.refilled_of_rebuild (b.config.disjoint_of_validate hvalid).primary
        hrebuild).kind
  | read keys =>
    obtain ⟨⟨⟩, c₁, hlook, hreading⟩ := Call.of_bind_ok h
    obtain ⟨stored, c₂, hrows, -⟩ := Call.of_bind_ok hreading
    exact ⟨stored, Call.Reads.look.of_ok hlook ▸ (Call.of_rows hrows).1⟩
  | readRaw key =>
    obtain ⟨stored, c₂, hrows, -⟩ := Call.of_bind_ok h
    exact ⟨stored, (Call.of_rows hrows).1⟩
  | list offset limit =>
    obtain ⟨⟨⟩, c₁, hlook, hreading⟩ := Call.of_bind_ok h
    obtain ⟨stored, c₂, hrows, -⟩ := Call.of_bind_ok hreading
    exact ⟨stored, Call.Reads.look.of_ok hlook ▸ (Call.of_rows hrows).1⟩
  | readIndex index values =>
    obtain ⟨-, hreading⟩ := Call.of_guarded h
    obtain ⟨⟨⟩, c₁, hlook, htabled⟩ := Call.of_bind_ok hreading
    obtain ⟨entries, c₂, htable, -⟩ := Call.of_bind_ok htabled
    exact ⟨entries, Call.Reads.look.of_ok hlook ▸ Call.of_indexTable htable⟩
  | verify =>
    obtain ⟨⟨⟩, c₁, hlook, hafter⟩ := Call.of_bind_ok h
    have hsame := Call.Reads.look.of_ok hlook
    obtain ⟨stored, c₂, hrows, hexpecting⟩ := Call.of_bind_ok hafter
    obtain ⟨hstored, rfl⟩ := Call.of_rows hrows
    obtain ⟨expected, c₃, hexpect, hcomparing⟩ := Call.of_bind_ok hexpecting
    obtain ⟨findings, c₄, hcompare, -⟩ := Call.of_bind_ok hcomparing
    have hkinds := Call.ofKind_of_compareEach hcompare
    rw [(Call.Reads.stepwise.expectEach b _ _).of_ok hexpect, hsame] at hkinds
    exact ⟨⟨stored, hsame ▸ hstored⟩, hkinds⟩

/-! ## What a call has done -/

/-- What a call has done to the tables of a bucket. -/
inductive Deed where
  /-- Nothing, for it only read or has failed. -/
  | nothing
  /-- Its rows and the entries of its indices were edited. -/
  | edit (config : BucketConfig)
  /-- All of its indices were built. -/
  | rebuild (config : BucketConfig)
  /-- It was opened, and some of its indices were built. -/
  | opening (config : BucketConfig) (built : List String)

namespace Deed

/-- A store is another one after a deed, in which mutators spared the tables of given names. -/
def Leaves (spared : String → Prop) (s' s : Store) : Deed → Prop
  | nothing => s' = s
  | edit config => s'.Edited s config spared
  | rebuild config => s'.Refilled s config
  | opening config built => s'.Opening s config built

/-- The indices that were built. -/
def built : Deed → List String
  | nothing | edit _ => []
  | rebuild config => config.indices
  | opening _ built => built

/-- The indices that may have been changed. -/
def touched : Deed → List String
  | nothing => []
  | edit config | rebuild config => config.indices
  | opening _ built => built

/-- The bucket of a name was edited, built or opened. -/
def On (name : String) : Deed → Prop
  | nothing => False
  | edit config | rebuild config | opening config _ => config.name = name

/-- The bucket of a name was edited. -/
def Edits (name : String) : Deed → Prop
  | edit config => config.name = name
  | nothing | rebuild _ | opening _ _ => False

/-- The bucket of a name was opened. -/
def Opens (name : String) : Deed → Prop
  | opening config _ => config.name = name
  | nothing | edit _ | rebuild _ => False

end Deed

/-- What a call that succeeds does. -/
def Operation.deed (b : Bucket R) : Operation σ R α → Deed
  | write .reindex => .rebuild b.config
  | write _ => .edit b.config
  | read _ | readRaw _ | list _ _ | readIndex _ _ | verify => .nothing

/-- **What a call that succeeds leaves.** -/
theorem Operation.leaves (b : Bucket R) (hvalid : b.config.validate = .ok ())
    {spared : String → Prop} {op : Operation σ R α}
    (hop : op.Mutators (Mutator.Within (.leaving spared))) {a : α}
    (h : op.call b c = .ok a c') : (op.deed b).Leaves spared c'.store c.store := by
  have hfound := op.found b hop hvalid h
  cases op with
  | write w =>
    cases w with
    | insert records =>
      exact Store.edited_of_frames hfound fun F hF =>
        Call.Within.stepwise.insert b hF records c () c' h
    | update records mutator => exact b.edited_of_update hop h
    | delete keys =>
      exact Store.edited_of_frames hfound fun F hF =>
        Call.Within.stepwise.delete b hF keys c () c' h
    | reindex =>
      obtain ⟨c₁, _, c₂, hsame, hinside, hstore, -⟩ := Call.of_logged h
      obtain ⟨n, c₃, hrebuild, hlooking⟩ := Call.of_bind_ok hinside
      obtain ⟨⟨⟩, c₄, hlook, hend⟩ := Call.of_bind_ok hlooking
      cases hend
      have hrefilled := Call.refilled_of_rebuild (b.config.disjoint_of_validate hvalid).primary
        hrebuild
      rw [hsame, ← Call.Reads.look.of_ok hlook, ← hstore] at hrefilled
      exact hrefilled
  | read keys => exact (Call.Reads.stepwise.read b keys).of_ok h
  | readRaw key => exact (Call.Reads.stepwise.readRaw b key).of_ok h
  | list offset limit => exact (Call.Reads.stepwise.list b offset limit).of_ok h
  | readIndex index values => exact (Call.Reads.stepwise.readIndex b index values).of_ok h
  | verify => exact (Call.Reads.stepwise.verify b).of_ok h

/-! ## Calls on one store -/

/-- A call is made on a store and leaves another one. Any bucket may be opened and called, in a
context of any kind, by itself or through the facade for cancellable calls. Of mutators it is asked
that they leave the tables of the names that are spared as they are; what they do to other tables is
up to them. -/
inductive Done (spared : String → Prop) : Store → Deed → Store → Prop
  /-- A bucket is opened. -/
  | opened {R σ : Type} [Record R] {config : BucketConfig} {codec : Codec R} {c c' : Context σ}
      {b : Bucket R} (run : Call.openBucket config codec c = .ok b c') :
      Done spared c.store (.opening config b.reconciliation.rebuilt) c'.store
  /-- A bucket is not opened. -/
  | refused {R σ : Type} [Record R] {config : BucketConfig} {codec : Codec R} {c c' : Context σ}
      {stop : Stop} (run : Call.openBucket config codec c = .error stop c') :
      Done spared c.store .nothing c'.store
  /-- A call on a bucket succeeds. -/
  | called {R σ α : Type} [Record R] {b : Bucket R} (valid : b.config.validate = .ok ())
      {op : Operation σ R α} (mutators : op.Mutators (Mutator.Within (.leaving spared)))
      {x : Call σ α} (how : x = op.call b ∨ x = (op.call b).offloaded) {c c' : Context σ} {a : α}
      (run : x c = .ok a c') : Done spared c.store (op.deed b) c'.store
  /-- A call on a bucket fails. -/
  | failed {R σ α : Type} [Record R] {b : Bucket R} {op : Operation σ R α} {x : Call σ α}
      (how : x = op.call b ∨ x = (op.call b).offloaded) {c c' : Context σ} {stop : Stop}
      (run : x c = .error stop c') : Done spared c.store .nothing c'.store
  /-- A question is asked, as those that have no cancellable form. -/
  | asked {σ α : Type} {x : Call σ α} (reads : x.Reads) {c : Context σ} :
      Done spared c.store .nothing (Call.context (x c)).store

/-- **A call leaves what its deed says.** -/
theorem Done.leaves {spared : String → Prop} {s s' : Store} {deed : Deed}
    (h : Done spared s deed s') : deed.Leaves spared s' s := by
  cases h with
  | opened run => exact Call.opening_of_openBucket run
  | refused run => exact Call.openBucket_reverts _ _ _ _ _ run
  | called valid mutators how run =>
    rcases how with rfl | rfl
    · exact Operation.leaves _ valid mutators run
    · obtain ⟨⟨⟩, c₁, hlook, hcall⟩ := Call.of_bind_ok (Call.of_offloaded run)
      exact Call.Reads.look.of_ok hlook ▸ Operation.leaves _ valid mutators hcall
  | failed how run =>
    rcases how with rfl | rfl
    · exact Operation.reverts _ _ _ _ _ run
    · exact Call.Reverts.offloaded (Operation.reverts _ _) _ _ _ run
  | asked reads => exact reads _

end IndexedStore
