import IndexedStore.Bucket.Open
import IndexedStore.Proofs.Keeping

set_option autoImplicit false

/-! # What opening a bucket does

A valid configuration names a family of different tables (`BucketConfig.Disjoint`), so nothing that
opening does to one of them touches another. Where the primary and the metadata table exist, opening
comes to building the indices that need it and to writing the descriptor (`openBucket_ends`); where
neither exists, it goes as if both had been created empty before (`reconcile_absent`). -/

namespace IndexedStore

variable {R σ α β : Type}

/-! ## Names -/

namespace BucketConfig

/-- A configuration names different tables. -/
structure Disjoint (config : BucketConfig) : Prop where
  primary : config.name ∉ config.indices
  metadata : config.metadataName ∉ config.indices
  own : config.metadataName ≠ config.name
  distinct : config.indices.Nodup

/-- An index has a name of its own. -/
theorem Disjoint.ne_of_mem {config : BucketConfig} (hd : config.Disjoint) {index : String}
    (hindex : index ∈ config.indices) : index ≠ config.name ∧ index ≠ config.metadataName :=
  ⟨fun he => hd.primary (he ▸ hindex), fun he => hd.metadata (he ▸ hindex)⟩

theorem metadataName_ne (config : BucketConfig) : config.metadataName ≠ config.name := by
  intro h
  have hlength := congrArg String.length h
  rw [metadataName, String.length_append] at hlength
  have hsuffix : 0 < metadataSuffix.length := by decide
  omega

theorem of_validateIndices {config : BucketConfig} {seen indices : List String}
    (h : config.validateIndices seen indices = .ok ()) :
    (∀ index ∈ indices, index ≠ config.name ∧ index ≠ config.metadataName ∧ index ∉ seen) ∧
      indices.Nodup := by
  induction indices generalizing seen with
  | nil => exact ⟨fun index hindex => (by cases hindex), .nil⟩
  | cons first rest ih =>
    rw [validateIndices] at h
    split at h
    · cases h
    · split at h
      · cases h
      · next hcollides =>
        split at h
        · cases h
        · next hunseen =>
          obtain ⟨hnames, hdistinct⟩ := ih h
          rw [not_or] at hcollides
          have hfirst : first ∉ rest := fun hmem =>
            (hnames first hmem).2.2 List.mem_cons_self
          refine ⟨fun index hindex => ?_, List.nodup_cons.mpr ⟨hfirst, hdistinct⟩⟩
          rcases List.mem_cons.mp hindex with rfl | hindex
          · exact ⟨hcollides.1, hcollides.2, hunseen⟩
          · obtain ⟨hname, hmetadata, hnew⟩ := hnames index hindex
            exact ⟨hname, hmetadata, fun hmem => hnew (List.mem_cons_of_mem _ hmem)⟩

/-- **A valid configuration** names different tables. -/
theorem disjoint_of_validate {config : BucketConfig} (h : config.validate = .ok ()) :
    config.Disjoint := by
  rw [validate] at h
  split at h
  · cases h
  · obtain ⟨hnames, hdistinct⟩ := of_validateIndices h
    exact ⟨fun hmem => (hnames _ hmem).1 rfl, fun hmem => (hnames _ hmem).2.1 rfl,
      config.metadataName_ne, hdistinct⟩

theorem unbuilt_subset (config : BucketConfig) (previous : Option Descriptor)
    (existing : List String) : ∀ index ∈ config.unbuilt previous existing, index ∈ config.indices :=
  fun _ hindex => (List.mem_filter.mp hindex).1

/-- The configuration of the same bucket with the indices alone that have to be built. -/
def building (config : BucketConfig) (previous : Option Descriptor) (existing : List String) :
    BucketConfig :=
  ⟨config.name, config.unbuilt previous existing⟩

theorem Disjoint.building {config : BucketConfig} (hd : config.Disjoint)
    (previous : Option Descriptor) (existing : List String) :
    (config.building previous existing).Disjoint :=
  ⟨fun hmem => hd.primary (config.unbuilt_subset previous existing _ hmem),
    fun hmem => hd.metadata (config.unbuilt_subset previous existing _ hmem), hd.own,
    hd.distinct.filter _⟩

end BucketConfig

/-! ## Calls that end in a quiet context -/

namespace Call

/-- The call ends in a quiet context with the store that `r` says, or fails for what `r` says. -/
def Ends (x : Call σ α) (c : Context σ) (r : Except BucketError Store) : Prop :=
  match r with
  | .ok s => ∃ a c', x c = .ok a c' ∧ c'.Quiet ∧ c'.store = s
  | .error e => ∃ c', x c = .error (.failed e) c' ∧ c'.Quiet

namespace Ends

variable {c : Context σ} {r : Except BucketError Store}

theorem after {x : Call σ α} {f : α → Call σ β} {a : α} {c' : Context σ} (hx : x c = .ok a c')
    (hf : Ends (f a) c' r) : Ends (x >>= f) c r := by
  unfold Ends at hf ⊢
  rw [bind_ok hx]
  exact hf

theorem failed {x : Call σ α} {f : α → Call σ β} {e : BucketError} (hc : c.Quiet)
    (hx : x c = .error (.failed e) c) : Ends (x >>= f) c (.error e) :=
  ⟨c, bind_error hx, hc⟩

/-- **In sequence**, the second call starts from the store that the first ends with. -/
theorem bind {x : Call σ α} {f : α → Call σ β} {g : Store → Store} (hx : Ends x c r)
    (hf : ∀ a c' s, r = .ok s → c'.Quiet → c'.store = s → Ends (f a) c' (.ok (g s))) :
    Ends (x >>= f) c (r.map g) := by
  cases r with
  | error e =>
    obtain ⟨c', hstop, hquiet⟩ := hx
    exact ⟨c', bind_error hstop, hquiet⟩
  | ok s =>
    obtain ⟨a, c', hrun, hquiet, hstore⟩ := hx
    obtain ⟨b, c'', hrest⟩ := hf a c' s rfl hquiet hstore
    exact ⟨b, c'', (bind_ok hrun).trans hrest.1, hrest.2⟩

end Ends

end Call

/-! ## The function -/

variable [Record R]

/-- What is built of the rows, which is nothing if there are no indices to be built. -/
def Contents.build (codec : Codec R) (indices : List String) (rows : OrderedMap Bytes Bytes) :
    Except BucketError Contents :=
  if indices.isEmpty then .ok ⟨rows, fun _ => .empty⟩ else rebuild codec indices rows

/-- The descriptor in the rows of a metadata table. -/
def Descriptor.stored (rows : OrderedMap String Bytes) : Except BucketError (Option Descriptor) :=
  match rows.get? rowKey with
  | none => .ok none
  | some bytes => (ofBytes bytes).map some

/-- The store after opening, where `previous` was the descriptor before. -/
def Store.reconciled (s : Store) (config : BucketConfig) (codec : Codec R)
    (previous : Option Descriptor) (rows : OrderedMap Bytes Bytes)
    (stored : OrderedMap String Bytes) : Except BucketError Store :=
  (Contents.build codec (config.unbuilt previous s.names) rows).map fun h =>
    (s.place (config.building previous s.names) h).put config.metadataName
      (.metadata (stored.insert Descriptor.rowKey (Descriptor.ofIndices config.indices).toBytes))

namespace Call

variable {c : Context σ} {config : BucketConfig}

theorem build_ends (hc : c.Quiet) {rows : OrderedMap Bytes Bytes}
    (hprimary : c.store.table? config.name = some (.primary rows)) (codec : Codec R)
    (indices : List String) (hname : config.name ∉ indices) (hdistinct : indices.Nodup) :
    Ends (build config codec indices) c
      ((Contents.build codec indices rows).map (c.store.place ⟨config.name, indices⟩)) := by
  unfold build Contents.build
  by_cases hempty : indices.isEmpty = true
  · obtain rfl := List.isEmpty_iff.mp hempty
    rw [if_pos hempty, if_pos hempty]
    have hsame : c.store.place ⟨config.name, []⟩ ⟨rows, fun _ => .empty⟩ = c.store :=
      Store.Holds.place_eq ⟨hprimary, fun index hindex => by cases hindex⟩
    exact ⟨0, c, rfl, hc, hsame.symm⟩
  · rw [if_neg hempty, if_neg hempty]
    have hmakes := @rebuild_makes R σ _ c ⟨config.name, indices⟩ hc
      (Store.ofKind_of_table? hprimary) hname hdistinct codec
    rw [Store.rowsIn_eq hprimary] at hmakes
    cases hrebuild : Contents.rebuild codec indices rows with
    | error e =>
      rw [hrebuild] at hmakes
      obtain ⟨s, hstop⟩ := hmakes
      exact ⟨_, bind_error hstop, hc.setStore s⟩
    | ok h =>
      rw [hrebuild] at hmakes
      obtain ⟨n, hrun⟩ := hmakes
      exact ⟨n, _, (bind_ok hrun).trans (bind_ok (log_run _ _)), (hc.setStore _).setLog _, rfl⟩

theorem descriptor_eq {stored : OrderedMap String Bytes}
    (h : c.store.table? config.metadataName = some (.metadata stored)) :
    descriptor config c = lift id (Descriptor.stored stored) c := by
  have hread : c.store.readMetadata config.metadataName = .ok stored := by
    simp only [Store.readMetadata, h]
  rw [descriptor, bind_ok (store_run c), bind_ok (lift_ok hread c), Descriptor.stored]
  cases stored.get? Descriptor.rowKey with
  | none => rfl
  | some bytes => cases hbytes : Descriptor.ofBytes bytes <;> simp only [hbytes] <;> rfl

/-- Once the descriptor before is known, the indices are built and the new descriptor is written. -/
theorem buildAndDescribe_ends (hc : c.Quiet) (hd : config.Disjoint)
    {rows : OrderedMap Bytes Bytes} (hprimary : c.store.table? config.name = some (.primary rows))
    {stored : OrderedMap String Bytes}
    (hmetadata : c.store.table? config.metadataName = some (.metadata stored)) (codec : Codec R)
    (previous : Option Descriptor) :
    Ends (do
        let recordsScanned ← build config codec (config.unbuilt previous c.store.names)
        openTable .metadata config.metadataName
        edit (·.putMetadata config.metadataName Descriptor.rowKey
          (Descriptor.ofIndices config.indices).toBytes)
        return (⟨previous.map (·.indices), config.unbuilt previous c.store.names,
          config.unconfigured previous, recordsScanned⟩ : Reconciliation) : Call σ Reconciliation)
      c (c.store.reconciled config codec previous rows stored) := by
  have hd' := hd.building previous c.store.names
  have hbuilt : Ends (build config codec (config.unbuilt previous c.store.names)) c
      ((Contents.build codec (config.unbuilt previous c.store.names) rows).map
        (c.store.place (config.building previous c.store.names))) :=
    build_ends hc hprimary codec _ hd'.primary hd'.distinct
  have hparts : c.store.reconciled config codec previous rows stored
      = ((Contents.build codec (config.unbuilt previous c.store.names) rows).map
        (c.store.place (config.building previous c.store.names))).map fun s =>
          s.put config.metadataName (.metadata (stored.insert Descriptor.rowKey
            (Descriptor.ofIndices config.indices).toBytes)) := by
    rw [Store.reconciled]
    cases Contents.build codec (config.unbuilt previous c.store.names) rows <;> rfl
  rw [hparts]
  refine hbuilt.bind fun n c' s hs hquiet hstore => ?_
  -- No index is built in place of the metadata table.
  have htable : c'.store.table? config.metadataName = some (.metadata stored) := by
    cases hbuild : Contents.build codec (config.unbuilt previous c.store.names) rows with
    | error e =>
      rw [hbuild] at hs
      cases hs
    | ok h =>
      rw [hbuild] at hs
      cases hs
      have hown : config.metadataName ≠ (config.building previous c.store.names).name := hd.own
      have hother : config.metadataName ∉ (config.building previous c.store.names).indices :=
        hd'.metadata
      rw [hstore, Store.table?_place, if_neg hown, if_neg hother, hmetadata]
  refine .after (openTable_ok htable rfl) ⟨_, _, bind_ok (edit_run _ c'), hquiet.setStore _, ?_⟩
  rw [hstore] at htable
  simp only [Store.putMetadata, hstore, htable]

/-- **Bringing the tables in line**, where the primary and the metadata table exist. -/
theorem reconcile_ends (hc : c.Quiet) (hd : config.Disjoint) {rows : OrderedMap Bytes Bytes}
    (hprimary : c.store.table? config.name = some (.primary rows))
    {stored : OrderedMap String Bytes}
    (hmetadata : c.store.table? config.metadataName = some (.metadata stored)) (codec : Codec R) :
    Ends (reconcile config codec) c
      (Descriptor.stored stored >>= fun previous =>
        c.store.reconciled config codec previous rows stored) := by
  have hdescriptor := descriptor_eq hmetadata
  refine .after (openTable_ok hprimary rfl) (.after (openTable_ok hmetadata rfl) ?_)
  cases hprevious : Descriptor.stored stored with
  | error e =>
    rw [hprevious] at hdescriptor
    exact .failed hc hdescriptor
  | ok previous =>
    rw [hprevious] at hdescriptor
    refine .after hdescriptor (.after (store_run c) ?_)
    by_cases horphaned : (config.unconfigured previous).isEmpty = true
    · rw [if_pos horphaned]
      exact buildAndDescribe_ends hc hd hprimary hmetadata codec previous
    · rw [if_neg horphaned]
      -- What is logged about indices that fell out of use does not touch the store.
      have hlogged := hc.setLog
        (c.log ++ [.indicesOrphaned config.name (config.unconfigured previous)])
      refine .after (log_run _ _) ?_
      exact buildAndDescribe_ends hlogged hd hprimary hmetadata codec previous

end Call

/-- The store with the primary and the metadata table of a bucket opened. -/
def Store.ready (s : Store) (config : BucketConfig) : Store :=
  (s.opened .primary config.name).opened .metadata config.metadataName

namespace Store

variable {s : Store} {config : BucketConfig}

theorem ofKind_opened (h : s.OfKind .metadata config.metadataName) :
    (s.opened .primary config.name).OfKind .metadata config.metadataName := by
  intro t ht
  rw [table?_opened, if_neg config.metadataName_ne] at ht
  exact h t ht

/-- Only the primary and the metadata table are opened. -/
theorem table?_ready {name : String} (hname : name ≠ config.name)
    (hmetadata : name ≠ config.metadataName) : (s.ready config).table? name = s.table? name := by
  rw [ready, table?_opened, if_neg hmetadata, table?_opened, if_neg hname]

theorem table?_ready_primary (h : s.OfKind .primary config.name) :
    (s.ready config).table? config.name = some (.primary (s.rowsIn config.name)) := by
  rw [ready, table?_opened, if_neg config.metadataName_ne.symm]
  exact table?_opened_primary h

theorem table?_ready_metadata (h : s.OfKind .metadata config.metadataName) :
    (s.ready config).table? config.metadataName
      = some (.metadata (s.metadataIn config.metadataName)) := by
  have hsame : (s.opened .primary config.name).metadataIn config.metadataName
      = s.metadataIn config.metadataName := by
    simp only [metadataIn, table?_opened, if_neg config.metadataName_ne]
  rw [ready, table?_opened_metadata (ofKind_opened h), hsame]

end Store

/-- The store with an empty primary and an empty metadata table. -/
def Store.founded (s : Store) (config : BucketConfig) : Store :=
  (s.put config.name (.primary .empty)).put config.metadataName (.metadata .empty)

theorem Store.ready_eq_founded {s : Store} {config : BucketConfig}
    (hprimary : s.table? config.name = none) (hmetadata : s.table? config.metadataName = none) :
    s.ready config = s.founded config := by
  have hother : (s.put config.name (.primary .empty)).table? config.metadataName = none := by
    rw [table?_put, if_neg config.metadataName_ne, hmetadata]
  simp only [ready, founded, opened, hprimary, Table.empty, hother]

namespace Call

variable {c : Context σ} {config : BucketConfig}

/-- Both tables are open once they have been opened. -/
theorem openBoth_ready (hprimary : c.store.OfKind .primary config.name)
    (hmetadata : c.store.OfKind .metadata config.metadataName) :
    openTable .primary config.name { c with store := c.store.ready config }
        = .ok () { c with store := c.store.ready config } ∧
      openTable .metadata config.metadataName { c with store := c.store.ready config }
        = .ok () { c with store := c.store.ready config } :=
  ⟨openTable_ok (Store.table?_ready_primary hprimary) rfl,
    openTable_ok (Store.table?_ready_metadata hmetadata) rfl⟩

/-- **Opening** a bucket opens its primary and its metadata table first, and goes as if both had
been there before. -/
theorem reconcile_ready (hprimary : c.store.OfKind .primary config.name)
    (hmetadata : c.store.OfKind .metadata config.metadataName) (codec : Codec R) :
    reconcile config codec c
      = reconcile config codec { c with store := c.store.ready config } := by
  obtain ⟨hopen, hopenMetadata⟩ := openBoth_ready hprimary hmetadata
  have hcreateMetadata : openTable .metadata config.metadataName
      { c with store := c.store.opened .primary config.name }
        = .ok () { c with store := c.store.ready config } :=
    openTable_run (Store.ofKind_opened hmetadata)
  unfold reconcile
  rw [bind_ok (openTable_run hprimary), bind_ok hcreateMetadata, bind_ok hopen,
    bind_ok hopenMetadata]

/-- **Where neither table exists**, opening goes as if both had been created before. -/
theorem reconcile_absent (hprimary : c.store.table? config.name = none)
    (hmetadata : c.store.table? config.metadataName = none) (codec : Codec R) :
    reconcile config codec c
      = reconcile config codec { c with store := c.store.founded config } := by
  rw [← Store.ready_eq_founded hprimary hmetadata]
  refine reconcile_ready (fun t ht => ?_) (fun t ht => ?_) codec
  · rw [hprimary] at ht
    cases ht
  · rw [hmetadata] at ht
    cases ht

theorem openBucket_invalid {e : ConfigError} (h : config.validate = .error e) (codec : Codec R)
    (c : Context σ) : openBucket config codec c = .error (.failed (.config e)) c := by
  rw [openBucket, bind_error (lift_error h c)]

/-- **Opening** a bucket ends as bringing its tables in line does; if that fails, the store is as it
was. -/
theorem openBucket_of_ends (hvalid : config.validate = .ok ()) {codec : Codec R}
    (r : Except BucketError Store) : Ends (reconcile config codec) c r →
    match r with
    | .ok s => ∃ b c', openBucket config codec c = .ok b c' ∧ b.config = config ∧
        b.codec = codec ∧ c'.Quiet ∧ c'.store = s
    | .error e => ∃ c', openBucket config codec c = .error (.failed e) c' ∧ c'.Quiet ∧
        c'.store = c.store := by
  intro hends
  cases r with
  | error e =>
    obtain ⟨c', hstop, hquiet⟩ := hends
    refine ⟨_, ?_, hquiet.setStore c.store, rfl⟩
    rw [openBucket, bind_ok (lift_ok hvalid c), bind_error (atomically_error hstop)]
  | ok s =>
    obtain ⟨reconciliation, c', hrun, hquiet, hstore⟩ := hends
    exact ⟨⟨config, codec, reconciliation⟩, _,
      (bind_ok (lift_ok hvalid c)).trans ((bind_ok (atomically_ok hrun)).trans
        (bind_ok (log_run _ c'))), rfl, rfl, ⟨hquiet.deaf, hquiet.calm⟩, hstore⟩

end Call

end IndexedStore
