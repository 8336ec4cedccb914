import IndexedStore.Proofs.Reconciling
import IndexedStore.Proofs.Simulation

set_option autoImplicit false

/-! # Validation is disjointness

A configuration names a family of tables: one for the rows, one for the metadata and one for each
index. It is valid exactly if none of its own names is empty and no table of the family has the name
of another (`BucketConfig.validate_eq_ok_iff`).

Otherwise the error tells of the first name at fault. An index is judged by the indices before it,
which the scan gathers; what comes after it does not matter. So the fault at a place is a function
of the list up to there (`BucketConfig.faultAt?`), and the scan finds the first place with a fault
(`BucketConfig.validate_eq_error_iff`).

On an empty store nothing else can go wrong: opening succeeds for every valid configuration, and
leaves its family of tables and no other table. -/

namespace IndexedStore

namespace BucketConfig

variable {config : BucketConfig}

/-- The names of the tables of a bucket. -/
def family (config : BucketConfig) : List String :=
  config.name :: config.metadataName :: config.indices

/-- A family without repetition is one of different tables. -/
theorem nodup_family_iff : config.family.Nodup ↔ config.Disjoint := by
  rw [family, List.nodup_cons, List.nodup_cons, List.mem_cons, not_or]
  constructor
  · rintro ⟨⟨hown, hprimary⟩, hmetadata, hdistinct⟩
    exact ⟨hprimary, hmetadata, fun he => hown he.symm, hdistinct⟩
  · intro hd
    exact ⟨⟨hd.own.symm, hd.primary⟩, hd.metadata, hd.distinct⟩

/-! ## The fault of an index -/

/-- What is wrong with an index that comes after the given ones, if anything is. -/
def fault? (config : BucketConfig) (before : List String) (index : String) : Option ConfigError :=
  if index = "" then some (.emptyIndexName config.name)
  else if index = config.name ∨ index = config.metadataName then some (.collision index)
  else if index ∈ before then some (.duplicate index)
  else none

theorem fault?_eq_none_iff {before : List String} {index : String} :
    config.fault? before index = none ↔
      index ≠ "" ∧ index ≠ config.name ∧ index ≠ config.metadataName ∧ index ∉ before := by
  unfold fault?
  split
  · next hempty => simp [hempty]
  · next hempty =>
    split
    · next hcollides =>
      rcases hcollides with hname | hmetadata
      · simp [hname]
      · simp [hmetadata]
    · next hcollides =>
      rw [not_or] at hcollides
      simp [hempty, hcollides]

/-- The order of the indices before does not matter. -/
theorem fault?_congr {before before' : List String} (h : ∀ other, other ∈ before ↔ other ∈ before')
    (index : String) : config.fault? before index = config.fault? before' index := by
  simp only [fault?, h]

theorem validateIndices_cons (seen rest : List String) (index : String) :
    config.validateIndices seen (index :: rest) =
      match config.fault? seen index with
      | some e => .error e
      | none => config.validateIndices (index :: seen) rest := by
  rw [validateIndices, fault?]
  split
  · rfl
  · split
    · rfl
    · split <;> rfl

/-! ## Acceptance -/

/-- Indices are accepted if they are not empty, collide with no other table, and differ from each
other and from those seen before. -/
theorem validateIndices_eq_ok_iff {seen indices : List String} :
    config.validateIndices seen indices = .ok () ↔
      (∀ index ∈ indices, config.fault? seen index = none) ∧ indices.Nodup := by
  induction indices generalizing seen with
  | nil => simp [validateIndices]
  | cons first rest ih =>
    rw [validateIndices_cons, List.forall_mem_cons, List.nodup_cons]
    cases hfault : config.fault? seen first with
    | some e => simp
    | none =>
      dsimp only
      rw [ih]
      simp only [fault?_eq_none_iff, List.mem_cons, not_or, true_and]
      constructor
      · rintro ⟨hrest, hdistinct⟩
        refine ⟨fun index hindex => ?_, fun hmem => (hrest first hmem).2.2.2.1 rfl, hdistinct⟩
        obtain ⟨hempty, hname, hmetadata, -, hseen⟩ := hrest index hindex
        exact ⟨hempty, hname, hmetadata, hseen⟩
      · rintro ⟨hrest, hfirst, hdistinct⟩
        refine ⟨fun index hindex => ?_, hdistinct⟩
        obtain ⟨hempty, hname, hmetadata, hseen⟩ := hrest index hindex
        exact ⟨hempty, hname, hmetadata, fun he => hfirst (he ▸ hindex), hseen⟩

/-- **A configuration is valid** exactly if its own names are not empty and the names of its family
are pairwise different. -/
theorem validate_eq_ok_iff :
    config.validate = .ok () ↔
      (∀ name ∈ config.name :: config.indices, name ≠ "") ∧ config.family.Nodup := by
  rw [nodup_family_iff, List.forall_mem_cons]
  constructor
  · intro h
    refine ⟨?_, disjoint_of_validate h⟩
    rw [validate] at h
    split at h
    · contradiction
    · next hname =>
      obtain ⟨hindices, -⟩ := validateIndices_eq_ok_iff.mp h
      exact ⟨hname, fun index hindex => (fault?_eq_none_iff.mp (hindices index hindex)).1⟩
  · rintro ⟨⟨hname, hindices⟩, hd⟩
    rw [validate, if_neg hname]
    refine validateIndices_eq_ok_iff.mpr ⟨fun index hindex => ?_, hd.distinct⟩
    obtain ⟨hother, hmetadata⟩ := hd.ne_of_mem hindex
    exact fault?_eq_none_iff.mpr ⟨hindices index hindex, hother, hmetadata, List.not_mem_nil⟩

/-! ## Refusal -/

/-- What is wrong with the index at a place, if there is one and anything is. -/
def faultAt? (config : BucketConfig) (i : Nat) : Option ConfigError :=
  config.indices[i]?.bind (config.fault? (config.indices.take i))

/-- **Indices are refused** for the first fault among them. -/
theorem validateIndices_eq_error_iff {seen indices : List String} {e : ConfigError} :
    config.validateIndices seen indices = .error e ↔
      ∃ i, indices[i]?.bind (config.fault? (seen ++ indices.take i)) = some e ∧
        ∀ j < i, indices[j]?.bind (config.fault? (seen ++ indices.take j)) = none := by
  induction indices generalizing seen with
  | nil => simp [validateIndices]
  | cons first rest ih =>
    -- What a place after the first is judged by is what was seen, the first index included.
    have hshift : ∀ i, (first :: rest)[i + 1]?.bind
          (config.fault? (seen ++ (first :: rest).take (i + 1)))
        = rest[i]?.bind (config.fault? (first :: seen ++ rest.take i)) := fun i => by
      have hsame : config.fault? (seen ++ (first :: rest).take (i + 1))
          = config.fault? (first :: seen ++ rest.take i) := by
        funext index
        refine fault?_congr (fun other => ?_) index
        simp only [List.take_succ_cons, List.cons_append, List.mem_append, List.mem_cons]
        exact or_left_comm
      rw [List.getElem?_cons_succ, hsame]
    have hfirst : (first :: rest)[0]?.bind (config.fault? (seen ++ (first :: rest).take 0))
        = config.fault? seen first := by
      rw [List.getElem?_cons_zero, Option.bind_some, List.take_zero, List.append_nil]
    rw [validateIndices_cons]
    cases hfault : config.fault? seen first with
    | some found =>
      rw [hfault] at hfirst
      constructor
      · rintro ⟨⟩
        exact ⟨0, hfirst, fun j hj => absurd hj (Nat.not_lt_zero j)⟩
      · rintro ⟨i, hi, hbefore⟩
        cases i with
        | zero =>
          rw [hfirst] at hi
          cases hi
          rfl
        | succ i =>
          have hnone := hbefore 0 (Nat.succ_pos i)
          rw [hfirst] at hnone
          contradiction
    | none =>
      rw [hfault] at hfirst
      dsimp only
      rw [ih]
      constructor
      · rintro ⟨i, hi, hbefore⟩
        refine ⟨i + 1, (hshift i).trans hi, fun j hj => ?_⟩
        cases j with
        | zero => exact hfirst
        | succ j => exact (hshift j).trans (hbefore j (Nat.lt_of_succ_lt_succ hj))
      · rintro ⟨i, hi, hbefore⟩
        cases i with
        | zero =>
          rw [hfirst] at hi
          contradiction
        | succ i =>
          exact ⟨i, (hshift i).symm.trans hi, fun j hj =>
            (hshift j).symm.trans (hbefore (j + 1) (Nat.succ_lt_succ hj))⟩

/-- **A configuration is refused** for its empty name, or else for the first of its indices that is
at fault. -/
theorem validate_eq_error_iff {e : ConfigError} :
    config.validate = .error e ↔
      config.name = "" ∧ e = .emptyName ∨
        config.name ≠ "" ∧ ∃ i, config.faultAt? i = some e ∧ ∀ j < i, config.faultAt? j = none := by
  rw [validate]
  by_cases hname : config.name = ""
  · rw [if_pos hname]
    simp only [hname, Except.error.injEq, true_and, ne_eq, not_true_eq_false, false_and, or_false,
      eq_comm]
  · rw [if_neg hname, validateIndices_eq_error_iff]
    simp only [hname, false_and, ne_eq, not_false_eq_true, true_and, false_or, List.nil_append,
      faultAt?]

end BucketConfig

/-! ## Opening on an empty store -/

variable {R σ : Type} [Record R]

/-- The table of a name in a store with a fresh bucket and nothing else. -/
def BucketConfig.freshTable? (config : BucketConfig) (name : String) : Option Table :=
  if name = config.name then some (.primary .empty)
  else if name = config.metadataName then some (Descriptor.table config.indices)
  else if name ∈ config.indices then some (.index .empty)
  else none

theorem BucketConfig.freshTable?_ne_none_iff {config : BucketConfig} {name : String} :
    config.freshTable? name ≠ none ↔ name ∈ config.family := by
  simp only [freshTable?, family, List.mem_cons]
  split
  · simp [*]
  · split
    · simp [*]
    · split <;> simp [*]

namespace Call

variable {config : BucketConfig} {codec : Codec R} {c c' : Context σ}

/-- **The tables after opening on an empty store** are those of a fresh bucket. -/
theorem table?_of_openBucket_empty (hc : c.Quiet) (hempty : c.store = .empty) {b : Bucket R}
    (h : openBucket config codec c = .ok b c') (name : String) :
    c'.store.table? name = config.freshTable? name := by
  obtain ⟨hvalid, -, -, c₁, log, hreconcile, rfl⟩ := of_openBucket h
  have hd := config.disjoint_of_validate hvalid
  have hreports := reports_of_reconcile hc hd hreconcile
  obtain ⟨-, hinLine⟩ := inLine_of_reconcile hc hd hreconcile
  -- No index has a table, so all of them are built.
  have hrebuilt : b.reconciliation.rebuilt = config.indices := by
    rw [hreports.rebuilt, hempty]
    exact List.filter_eq_self.mpr fun index _ => decide_eq_true (.inr rfl)
  unfold BucketConfig.freshTable?
  by_cases hname : name = config.name
  · rw [if_pos hname, hname, hinLine.rows, hempty]
    rfl
  · rw [if_neg hname]
    by_cases hmetadata : name = config.metadataName
    · rw [if_pos hmetadata, hmetadata, hinLine.metadata, hempty]
      rfl
    · rw [if_neg hmetadata]
      by_cases hindex : name ∈ config.indices
      · obtain ⟨records, hlegible, htable⟩ := hinLine.built name (hrebuilt ▸ hindex)
        have hrecords : records = [] := by
          have hdecode := hlegible.decode
          rw [hempty] at hdecode
          exact List.map_eq_nil_iff.mp hdecode.symm
        rw [if_pos hindex, htable, hrecords]
        rfl
      · rw [if_neg hindex, hinLine.other name hname hmetadata (hrebuilt ▸ hindex), hempty]
        rfl

theorem names_of_openBucket_empty (hc : c.Quiet) (hempty : c.store = .empty) {b : Bucket R}
    (h : openBucket config codec c = .ok b c') : c'.store.names.Perm config.family := by
  have hvalid := (of_openBucket h).1
  have hdistinct := (BucketConfig.validate_eq_ok_iff.mp hvalid).2
  refine (List.perm_ext_iff_of_nodup
    (OrderedMap.nodup_of_ascending c'.store.tables.keys_ascending) hdistinct).mpr fun name => ?_
  rw [← BucketConfig.freshTable?_ne_none_iff, ← table?_of_openBucket_empty hc hempty h]
  exact c'.store.mem_names_iff name

end Call

/-- **Validation is exactly disjointness of the family of tables.** It succeeds exactly if the name
of the bucket and those of its indices are not empty and the names of the family are pairwise
different. Otherwise the error is that of the empty name, or else that of the first index that is
empty, collides with the bucket or its metadata table, or repeats an index before it. On an empty
store opening succeeds exactly if validation does, and then the tables are those of the family: one
for the rows, one for the metadata, and one for each index. An invalid configuration fails opening
before anything is touched, in every context. -/
theorem BucketConfig.validate_names_family (config : BucketConfig) (codec : Codec R)
    (c : Context σ) :
    (config.validate = .ok () ↔
      (∀ name ∈ config.name :: config.indices, name ≠ "") ∧ config.family.Nodup) ∧
    (∀ e, config.validate = .error e ↔
      config.name = "" ∧ e = .emptyName ∨
        config.name ≠ "" ∧ ∃ i, config.faultAt? i = some e ∧ ∀ j < i, config.faultAt? j = none) ∧
    (c.Quiet → c.store = .empty →
      ((∃ b c', Call.openBucket config codec c = .ok b c') ↔ config.validate = .ok ()) ∧
      ∀ b c', Call.openBucket config codec c = .ok b c' →
        c'.store.names.Perm config.family ∧
        ∀ name, c'.store.table? name = config.freshTable? name) ∧
    ∀ e, config.validate = .error e →
      Call.openBucket config codec c = .error (.failed (.config e)) c := by
  refine ⟨validate_eq_ok_iff, fun e => validate_eq_error_iff, fun hc hempty => ⟨?_, ?_⟩,
    fun e he => Call.openBucket_invalid he codec c⟩
  · constructor
    · rintro ⟨b, c', h⟩
      exact (Call.of_openBucket h).1
    · intro hvalid
      obtain ⟨b, c', h, -⟩ := Call.openBucket_empty hvalid codec hc hempty
      exact ⟨b, c', h⟩
  · intro b c' h
    exact ⟨Call.names_of_openBucket_empty hc hempty h, Call.table?_of_openBucket_empty hc hempty h⟩

/-! ### A bucket of words, and one with an index named like its metadata table -/

theorem BucketConfig.validate_names_family_words :
    let config : BucketConfig := ⟨"words", ["initial"]⟩
    let wrong : BucketConfig := ⟨"words", ["initial", "words_meta", "initial"]⟩
    let c : Context Unit := Call.quiet .empty [] ()
    config.validate = .ok () ∧ c.Quiet ∧ c.store = .empty ∧
      (∃ b c', Call.openBucket config .words c = .ok b c' ∧
        c'.store.names.Perm ["words", "words_meta", "initial"]) ∧
      wrong.faultAt? 1 = some (.collision "words_meta") ∧
      wrong.validate = .error (.collision "words_meta") ∧
      Call.openBucket wrong .words c = .error (.failed (.config (.collision "words_meta"))) c := by
  intro config wrong c
  have hvalid : config.validate = .ok () := rfl
  have hc : c.Quiet := Context.quiet_quiet .empty [] ()
  have hfault : wrong.faultAt? 1 = some (.collision "words_meta") := by decide +kernel
  obtain ⟨-, -, hopen, -⟩ := BucketConfig.validate_names_family config Codec.words c
  obtain ⟨-, herror, -, hfails⟩ := BucketConfig.validate_names_family wrong Codec.words c
  obtain ⟨hopens, htables⟩ := hopen hc rfl
  obtain ⟨b, c', hrun⟩ := hopens.mpr hvalid
  have hwrong : wrong.validate = .error (.collision "words_meta") := by
    refine (herror _).mpr (.inr ⟨by decide, 1, hfault, fun j hj => ?_⟩)
    obtain rfl : j = 0 := Nat.lt_one_iff.mp hj
    decide +kernel
  exact ⟨hvalid, hc, rfl, ⟨b, c', hrun, (htables b c' hrun).1⟩, hfault, hwrong, hfails _ hwrong⟩

end IndexedStore
