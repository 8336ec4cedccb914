import IndexedStore.Bucket.Open
import IndexedStore.Proofs.Failing
import IndexedStore.Proofs.Quiet

set_option autoImplicit false

/-! # Tables that may be absent

A bucket's tables need not exist when a call comes to them: the store is shared, and another program
may have dropped any of them. What matters is that a table that does exist is of its own kind
(`Store.OwnKinds`). Opening such a table for writing gives a store that has it (`Store.opened`): a
primary or a metadata table with the rows it had, which are none if it was absent. An index table is
never made in that way by a call that edits it, for opening the indices stops at the first that is
absent (`openIndices_absent`), and so where it succeeds all of them are there (`of_openIndices`). -/

namespace IndexedStore

variable {σ α β : Type}

/-! ## What a store shows of a table -/

theorem Table.eq_index_of_kind {t : Table} (h : t.kind = .index) :
    ∃ entries, t = .index entries := by
  cases t with
  | primary rows => cases h
  | index entries => exact ⟨entries, rfl⟩
  | metadata rows => cases h

namespace Store

/-- The rows of a primary table; none if there is no such table. -/
def rowsIn (s : Store) (name : String) : OrderedMap Bytes Bytes :=
  match s.table? name with
  | some (.primary rows) => rows
  | _ => .empty

/-- The rows of a metadata table; none if there is no such table. -/
def metadataIn (s : Store) (name : String) : OrderedMap String Bytes :=
  match s.table? name with
  | some (.metadata rows) => rows
  | _ => .empty

/-- A name stands for no table of another kind. -/
def OfKind (s : Store) (kind : TableKind) (name : String) : Prop :=
  ∀ t, s.table? name = some t → t.kind = kind

/-- None of the names of a configuration stands for a table of another kind. -/
structure OwnKinds (s : Store) (config : BucketConfig) : Prop where
  primary : s.OfKind .primary config.name
  metadata : s.OfKind .metadata config.metadataName
  index : ∀ index ∈ config.indices, s.OfKind .index index

instance (s : Store) (kind : TableKind) (name : String) : Decidable (s.OfKind kind name) :=
  decidable_of_iff ((s.table? name).all (·.kind = kind) = true) (by
    rw [Option.all_eq_true]
    simp only [decide_eq_true_eq, OfKind])

instance (s : Store) (config : BucketConfig) : Decidable (s.OwnKinds config) :=
  decidable_of_iff (s.OfKind .primary config.name ∧ s.OfKind .metadata config.metadataName ∧
    ∀ index ∈ config.indices, s.OfKind .index index)
    ⟨fun h => ⟨h.1, h.2.1, h.2.2⟩, fun h => ⟨h.primary, h.metadata, h.index⟩⟩

/-- The store after a table was opened for writing. -/
def opened (s : Store) (kind : TableKind) (name : String) : Store :=
  match s.table? name with
  | none => s.put name (.empty kind)
  | some _ => s

variable {s : Store}

theorem table?_opened (s : Store) (kind : TableKind) (name other : String) :
    (s.opened kind name).table? other
      = if other = name then some ((s.table? name).getD (.empty kind)) else s.table? other := by
  unfold opened
  cases ht : s.table? name with
  | none => rw [table?_put, Option.getD_none]
  | some t =>
    rw [Option.getD_some]
    by_cases hother : other = name
    · rw [if_pos hother, hother]
      exact ht
    · rw [if_neg hother]

theorem opened_of_table? {kind : TableKind} {name : String} {t : Table}
    (h : s.table? name = some t) : s.opened kind name = s := by
  simp only [opened, h]

theorem ofKind_of_table? {name : String} {t : Table} (h : s.table? name = some t) :
    s.OfKind t.kind name := by
  intro t' ht'
  rw [h, Option.some.injEq] at ht'
  rw [ht']

theorem ofKind_of_index {name : String}
    (h : ∃ entries, s.table? name = some (.index entries)) : s.OfKind .index name := by
  obtain ⟨entries, hentries⟩ := h
  exact ofKind_of_table? hentries

/-- A table of another kind has another name. -/
theorem OfKind.ne {kind : TableKind} {name other : String} {t : Table} (h : s.OfKind kind name)
    (ht : s.table? other = some t) (hkind : t.kind ≠ kind) : other ≠ name := by
  rintro rfl
  exact hkind (h t ht)

theorem rowsIn_eq {name : String} {rows : OrderedMap Bytes Bytes}
    (h : s.table? name = some (.primary rows)) : s.rowsIn name = rows := by
  simp only [rowsIn, h]

theorem metadataIn_eq {name : String} {rows : OrderedMap String Bytes}
    (h : s.table? name = some (.metadata rows)) : s.metadataIn name = rows := by
  simp only [metadataIn, h]

/-- A primary table that is opened has the rows it had. -/
theorem table?_opened_primary {name : String} (h : s.OfKind .primary name) :
    (s.opened .primary name).table? name = some (.primary (s.rowsIn name)) := by
  rw [table?_opened, if_pos rfl]
  cases ht : s.table? name with
  | none => simp only [rowsIn, ht]; rfl
  | some t =>
    cases t with
    | primary rows => simp only [rowsIn, ht]; rfl
    | index entries => cases h _ ht
    | metadata rows => cases h _ ht

/-- A metadata table that is opened has the rows it had. -/
theorem table?_opened_metadata {name : String} (h : s.OfKind .metadata name) :
    (s.opened .metadata name).table? name = some (.metadata (s.metadataIn name)) := by
  rw [table?_opened, if_pos rfl]
  cases ht : s.table? name with
  | none => simp only [metadataIn, ht]; rfl
  | some t =>
    cases t with
    | primary rows => cases h _ ht
    | index entries => cases h _ ht
    | metadata rows => simp only [metadataIn, ht]; rfl

theorem table?_opened_index {name : String} (h : s.OfKind .index name) :
    ∃ entries, (s.opened .index name).table? name = some (.index entries) := by
  rw [table?_opened, if_pos rfl]
  cases ht : s.table? name with
  | none => exact ⟨.empty, rfl⟩
  | some t =>
    obtain ⟨entries, rfl⟩ := Table.eq_index_of_kind (h t ht)
    exact ⟨entries, rfl⟩

theorem ensure_of_kind {kind : TableKind} {name : String} (h : s.OfKind kind name) :
    s.ensure kind name = .ok (s.opened kind name) := by
  unfold ensure opened
  cases ht : s.table? name with
  | none => rfl
  | some t => exact if_pos (h t ht)

theorem ofKind_of_ensure {kind : TableKind} {name : String} {s' : Store}
    (h : s.ensure kind name = .ok s') : s.OfKind kind name := by
  intro t ht
  simp only [ensure, ht] at h
  split at h
  · next hkind => exact hkind
  · cases h

/-- An index that could be opened is there, and nothing was done to open it. -/
theorem of_openIndex {index : String} {s' : Store} (h : s.openIndex index = .ok s') :
    (∃ entries, s.table? index = some (.index entries)) ∧ s' = s := by
  unfold openIndex at h
  cases ht : s.table? index with
  | none =>
    rw [ht] at h
    cases h
  | some t =>
    rw [ht] at h
    have hensure : s.ensure .index index = .ok s' := of_mapError_ok h
    have hkind := ofKind_of_ensure hensure t ht
    rw [Call.ensure_ok ht hkind] at hensure
    obtain ⟨entries, rfl⟩ := Table.eq_index_of_kind hkind
    exact ⟨⟨entries, rfl⟩, (Except.ok.inj hensure).symm⟩

theorem table?_dropEach (indices : List String) (s : Store) (name : String) :
    (indices.foldl Store.drop s).table? name = if name ∈ indices then none else s.table? name := by
  induction indices generalizing s with
  | nil => rfl
  | cons index rest ih =>
    rw [List.foldl_cons, ih, table?_drop]
    by_cases hrest : name ∈ rest
    · rw [if_pos hrest, if_pos (List.mem_cons_of_mem _ hrest)]
    · by_cases hname : name = index
      · rw [if_neg hrest, if_pos hname, if_pos (hname ▸ List.mem_cons_self)]
      · have hnot : name ∉ index :: rest := by simp [hname, hrest]
        rw [if_neg hrest, if_neg hname, if_neg hnot]

theorem mem_names_iff (s : Store) (name : String) : name ∈ s.names ↔ s.table? name ≠ none := by
  rw [names, OrderedMap.mem_keys_iff, OrderedMap.contains, Option.isSome_iff_ne_none, table?]

end Store

/-- The tables that a handle reads and writes are there. -/
structure Bucket.Present {R : Type} (b : Bucket R) (s : Store) : Prop where
  rows : ∃ rows, s.table? b.name = some (.primary rows)
  index : ∀ index ∈ b.indices, ∃ entries, s.table? index = some (.index entries)

theorem Bucket.Present.ofKind {R : Type} {b : Bucket R} {s : Store} (h : b.Present s) :
    ∀ index ∈ b.indices, s.OfKind .index index :=
  fun index hindex => Store.ofKind_of_index (h.index index hindex)

/-! ## Sequences that succeed -/

namespace Call

/-- **A sequence that ends with a value** is one whose parts do. -/
theorem of_bind_ok {x : Call σ α} {f : α → Call σ β} {c c' : Context σ} {b : β}
    (h : (x >>= f) c = .ok b c') : ∃ a c₁, x c = .ok a c₁ ∧ f a c₁ = .ok b c' := by
  cases hx : x c with
  | ok a c₁ =>
    rw [bind_ok hx] at h
    exact ⟨a, c₁, rfl, h⟩
  | error stop c₁ =>
    rw [bind_error hx] at h
    cases h

theorem of_lift_ok {ε : Type} {wrap : ε → BucketError} {r : Except ε α} {c c' : Context σ} {a : α}
    (h : lift wrap r c = .ok a c') : r = .ok a ∧ c' = c := by
  cases r with
  | error e => cases h
  | ok value =>
    cases h
    exact ⟨rfl, rfl⟩

/-- Where a call that fails first if something is wrong succeeds, nothing was wrong. -/
theorem of_guarded {p : Prop} [Decidable p] {error : BucketError} {f : α → Call σ β} {x : Call σ β}
    {c c' : Context σ} {b : β} (h : (if p then fail error >>= f else x) c = .ok b c') :
    ¬ p ∧ x c = .ok b c' := by
  split at h
  · obtain ⟨_, _, hfail, -⟩ := of_bind_ok h
    cases hfail
  · next hp => exact ⟨hp, h⟩

theorem of_atomically_ok {x : Call σ α} {c c' : Context σ} {a : α}
    (h : atomically x c = .ok a c') : x c = .ok a c' := by
  cases hx : x c with
  | ok value c₁ => rw [atomically_ok hx] at h; exact h
  | error stop c₁ => rw [atomically_error hx] at h; cases h

/-! ## Opening tables -/

variable {c c' : Context σ}

/-- A change that was made was not refused. -/
theorem of_change {f : Store → Except BucketError Store} (h : change f c = .ok () c') :
    f c.store = .ok c'.store ∧ c' = { c with store := c'.store } := by
  obtain ⟨s, c₁, hlift, hedit⟩ := of_bind_ok ((bind_ok (store_run c)).symm.trans h)
  obtain ⟨hchanged, rfl⟩ := of_lift_ok hlift
  cases hedit
  exact ⟨hchanged, rfl⟩

/-- A table is opened as a kind if its name stands for no other. -/
theorem openTable_run {kind : TableKind} {name : String} (h : c.store.OfKind kind name) :
    openTable kind name c = .ok () { c with store := c.store.opened kind name } :=
  change_run (congrArg (Except.mapError BucketError.table) (Store.ensure_of_kind h))

theorem of_openTable {kind : TableKind} {name : String} (h : openTable kind name c = .ok () c') :
    c.store.OfKind kind name ∧ c' = { c with store := c.store.opened kind name } := by
  have hkind : c.store.OfKind kind name :=
    Store.ofKind_of_ensure (of_mapError_ok (of_change h).1)
  rw [openTable_run hkind] at h
  cases h
  exact ⟨hkind, rfl⟩

/-- A primary table that was read is there. -/
theorem of_rows {name : String} {stored : OrderedMap Bytes Bytes}
    (h : rows name c = .ok stored c') :
    c.store.table? name = some (.primary stored) ∧ c' = c := by
  rw [rows, bind_ok (store_run c)] at h
  obtain ⟨hread, rfl⟩ := of_lift_ok h
  refine ⟨?_, rfl⟩
  rw [Store.readPrimary] at hread
  split at hread
  · cases hread
  · next rows ht =>
    cases hread
    exact ht
  · cases hread

/-- Indices that could be opened are all there, and nothing was done to open them. -/
theorem of_openIndices {indices : List String} (h : openIndices indices c = .ok () c') :
    (∀ index ∈ indices, ∃ entries, c.store.table? index = some (.index entries)) ∧ c' = c := by
  induction indices generalizing c with
  | nil =>
    cases h
    exact ⟨fun index hindex => (by cases hindex), rfl⟩
  | cons index rest ih =>
    obtain ⟨⟨⟩, c₁, hopen, hrest⟩ := of_bind_ok h
    obtain ⟨hchanged, hc₁⟩ := of_change hopen
    obtain ⟨hthere, hsame⟩ := Store.of_openIndex hchanged
    obtain rfl : c₁ = c := by rw [hc₁, hsame]
    obtain ⟨hothers, rfl⟩ := ih hrest
    exact ⟨List.forall_mem_cons.mpr ⟨hthere, hothers⟩, rfl⟩

/-- **Opening the indices** stops at the first that is absent, if those before it are indices. -/
theorem openIndices_absent {indices : List String} {first : String}
    (hkinds : ∀ index ∈ indices, c.store.OfKind .index index)
    (hfirst : indices.find? (fun index => (c.store.table? index).isNone) = some first) :
    openIndices indices c = .error (.failed (.missingIndex first)) c := by
  induction indices with
  | nil => cases hfirst
  | cons index rest ih =>
    rw [openIndices]
    cases ht : c.store.table? index with
    | none =>
      rw [List.find?_cons, ht] at hfirst
      cases hfirst
      exact bind_error (change_refused (by rw [Store.openIndex, ht]; rfl))
    | some t =>
      rw [List.find?_cons, ht] at hfirst
      obtain ⟨hkind, hrest⟩ := List.forall_mem_cons.mp hkinds
      rw [bind_ok (change_run (openIndex_ok ht (hkind t ht)))]
      exact ih hrest hfirst

end Call

end IndexedStore
