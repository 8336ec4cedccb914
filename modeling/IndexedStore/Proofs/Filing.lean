import IndexedStore.Proofs.Contents

set_option autoImplicit false

/-! # Filing and unfiling

Filing a record, or taking it out of the indices, goes from index to index: the record is asked for
its entries there, and the table is edited. On contents that is one edit per index
(`Contents.editEach`), unless some value of the record is too long. No index is edited twice, so in
the end each has been edited just as if it were alone (`entries_editEach`). -/

namespace IndexedStore

variable {R σ : Type}

/-! ## Edits per index -/

namespace Contents

/-- The contents with the entries of several indices edited, one index after the other. -/
def editEach (f : String → OrderedSet Bytes → OrderedSet Bytes) : List String → Contents → Contents
  | [], h => h
  | index :: rest, h => editEach f rest (h.setIndex index (f index (h.entries index)))

theorem rows_editEach (f : String → OrderedSet Bytes → OrderedSet Bytes) (indices : List String)
    (h : Contents) : (h.editEach f indices).rows = h.rows := by
  induction indices generalizing h with
  | nil => rfl
  | cons index rest ih => rw [editEach, ih]; rfl

theorem entries_editEach (f : String → OrderedSet Bytes → OrderedSet Bytes) {indices : List String}
    (hdistinct : indices.Nodup) (h : Contents) (index : String) :
    (h.editEach f indices).entries index
      = if index ∈ indices then f index (h.entries index) else h.entries index := by
  induction indices generalizing h with
  | nil => rfl
  | cons first rest ih =>
    obtain ⟨hfirst, hrest⟩ := List.nodup_cons.mp hdistinct
    rw [editEach, ih hrest]
    by_cases hindex : index = first
    · subst hindex
      rw [if_neg hfirst, if_pos List.mem_cons_self]
      simp only [setIndex, if_pos]
    · simp only [setIndex, List.mem_cons, hindex, false_or, ↓reduceIte]

end Contents

/-! ## Values that are too long -/

variable [Record R]

/-- The first value of a record in any of the indices that is too long. -/
def Index.oversizedIn? (indices : List String) (record : R) : Option Oversized :=
  indices.findSome? (oversized? record)

theorem Index.oversizedIn?_eq_none_iff (indices : List String) (record : R) :
    oversizedIn? indices record = none ↔ Fits indices record := by
  simp only [oversizedIn?, List.findSome?_eq_none_iff, oversized?_eq_none_iff, Fits]

namespace Contents

/-- The contents with a record filed in the indices. -/
def file (indices : List String) (record : R) (h : Contents) : Except BucketError Contents :=
  match Index.oversizedIn? indices record with
  | some value => .error (.oversized value)
  | none => .ok (h.editEach (fun index t => t.union (Index.expected [record] index)) indices)

/-- The contents with a record taken out of the indices. -/
def unfile (indices : List String) (record : R) (h : Contents) : Except BucketError Contents :=
  match Index.oversizedIn? indices record with
  | some value => .error (.oversized value)
  | none => .ok (h.editEach (fun index t => t.minus (Index.expected [record] index)) indices)

theorem file_of_fits {indices : List String} {record : R} (hfits : Index.Fits indices record)
    (h : Contents) : h.file indices record
      = .ok (h.editEach (fun index t => t.union (Index.expected [record] index)) indices) := by
  rw [file, (Index.oversizedIn?_eq_none_iff indices record).mpr hfits]

theorem unfile_of_fits {indices : List String} {record : R} (hfits : Index.Fits indices record)
    (h : Contents) : h.unfile indices record
      = .ok (h.editEach (fun index t => t.minus (Index.expected [record] index)) indices) := by
  rw [unfile, (Index.oversizedIn?_eq_none_iff indices record).mpr hfits]

theorem fits_of_file {indices : List String} {record : R} {h h' : Contents}
    (hfile : h.file indices record = .ok h') : Index.Fits indices record := by
  rw [← Index.oversizedIn?_eq_none_iff]
  cases hfault : Index.oversizedIn? indices record with
  | none => rfl
  | some value =>
    rw [file, hfault] at hfile
    cases hfile

theorem fits_of_unfile {indices : List String} {record : R} {h h' : Contents}
    (hunfile : h.unfile indices record = .ok h') : Index.Fits indices record := by
  rw [← Index.oversizedIn?_eq_none_iff]
  cases hfault : Index.oversizedIn? indices record with
  | none => rfl
  | some value =>
    rw [unfile, hfault] at hunfile
    cases hunfile

/-- What a record has been filed in. -/
theorem eq_of_file {indices : List String} {record : R} {h h' : Contents}
    (hfile : h.file indices record = .ok h') :
    h' = h.editEach (fun index t => t.union (Index.expected [record] index)) indices := by
  rw [file_of_fits (fits_of_file hfile)] at hfile
  exact (Except.ok.inj hfile).symm

/-- What a record has been taken out of. -/
theorem eq_of_unfile {indices : List String} {record : R} {h h' : Contents}
    (hunfile : h.unfile indices record = .ok h') :
    h' = h.editEach (fun index t => t.minus (Index.expected [record] index)) indices := by
  rw [unfile_of_fits (fits_of_unfile hunfile)] at hunfile
  exact (Except.ok.inj hunfile).symm

end Contents

/-! ## Calls -/

namespace Call

variable {c : Context σ} {config : BucketConfig} {h : Contents}

theorem addEntries_makes (hs : c.store.Holds config h) (hname : config.name ∉ config.indices)
    {index : String} (hindex : index ∈ config.indices) (entries : List Bytes) :
    Makes (addEntries index entries) c config
      (.ok (h.setIndex index (entries.foldl (fun t e => t.insert e ()) (h.entries index)))) := by
  refine Makes.map (.edit ?_) fun _ => entries.length
  rw [Store.putEntries_eq (hs.index index hindex), hs.put_index hname hindex]

theorem removeEntries_makes (hs : c.store.Holds config h) (hname : config.name ∉ config.indices)
    {index : String} (hindex : index ∈ config.indices) (entries : List Bytes) :
    Makes (removeEntries index entries) c config
      (.ok (h.setIndex index (entries.foldl (fun t e => t.erase e) (h.entries index)))) := by
  refine .after (store_run c) (Makes.map (.edit ?_) fun _ => _)
  rw [Store.eraseEntries_eq (hs.index index hindex), hs.put_index hname hindex]

/-- A call that asks a record for its entries in one index after the other, and edits each table
with them, edits the contents index by index, unless some value is too long. -/
theorem eachIndex_makes {x : List String → Call σ Nat} {y : String → List Bytes → Call σ Nat}
    {f : OrderedSet Bytes → OrderedSet Bytes → OrderedSet Bytes} {record : R}
    (hnil : x [] = pure 0)
    (hcons : ∀ index rest, x (index :: rest) = entriesOf record index >>= fun entries =>
      y index entries.keys >>= fun n => x rest >>= fun more => pure (n + more))
    (hy : ∀ {c : Context σ} {h : Contents} {index : String}, c.store.Holds config h →
      index ∈ config.indices → ∀ entries : OrderedSet Bytes, Makes (y index entries.keys) c config
        (.ok (h.setIndex index (f (h.entries index) entries))))
    (hc : c.Quiet) (hs : c.store.Holds config h) (hname : config.name ∉ config.indices)
    {indices : List String} (hsub : ∀ index ∈ indices, index ∈ config.indices) :
    Makes (x indices) c config
      (match Index.oversizedIn? indices record with
      | some value => .error (.oversized value)
      | none => .ok (h.editEach (fun index t => f t (Index.expected [record] index)) indices)) := by
  induction indices generalizing c h with
  | nil =>
    rw [hnil]
    exact .pure hs 0
  | cons index rest ih =>
    have hindex := hsub index List.mem_cons_self
    have hrest : ∀ i ∈ rest, i ∈ config.indices := fun i hi => hsub i (List.mem_cons_of_mem _ hi)
    have hasked := entriesOf_eq hc record index
    rw [Index.entries_eq] at hasked
    rw [hcons]
    cases hfault : Index.oversized? record index with
    | some value =>
      rw [hfault] at hasked
      simp only [Index.oversizedIn?, List.findSome?_cons, hfault]
      exact .failed hasked
    | none =>
      rw [hfault] at hasked
      -- The tables of the other indices are as before, so the rest starts from edited contents.
      have hlater := fun c' hc' => @ih c' (h.setIndex index (f (h.entries index)
        (Index.expected [record] index))) hc'
      simp only [Index.oversizedIn?, List.findSome?_cons, hfault] at hlater ⊢
      refine .after hasked (.step (hy hs hindex (Index.expected [record] index)) fun n => ?_)
      exact (hlater _ (hc.setStore _) (Store.holds_place hname _ _) hrest).map _

/-- **Filing a record** makes of the contents what `Contents.file` says. -/
theorem fileRecord_makes (hc : c.Quiet) (hs : c.store.Holds config h)
    (hname : config.name ∉ config.indices) (record : R) {indices : List String}
    (hsub : ∀ index ∈ indices, index ∈ config.indices) :
    Makes (fileRecord record indices) c config (h.file indices record) :=
  eachIndex_makes (f := OrderedMap.union) rfl (fun _ _ => rfl)
    (fun hs hindex entries => addEntries_makes hs hname hindex entries.keys) hc hs hname hsub

/-- **Taking a record out** makes of the contents what `Contents.unfile` says. -/
theorem unfileRecord_makes (hc : c.Quiet) (hs : c.store.Holds config h)
    (hname : config.name ∉ config.indices) (record : R) {indices : List String}
    (hsub : ∀ index ∈ indices, index ∈ config.indices) :
    Makes (unfileRecord record indices) c config (h.unfile indices record) :=
  eachIndex_makes (f := OrderedMap.minus) rfl (fun _ _ => rfl)
    (fun hs hindex entries => removeEntries_makes hs hname hindex entries.keys) hc hs hname hsub

end Call

end IndexedStore
