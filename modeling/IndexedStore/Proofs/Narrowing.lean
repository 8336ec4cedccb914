import IndexedStore.Proofs.Keeping

set_option autoImplicit false

/-! # A bucket with fewer indices

What a call makes of the rows, and of the entries in one index, does not depend on the entries in
the others. So a call that succeeds would do the same on a bucket with fewer of its indices, even if
the tables of the rest held something else: it succeeds as well, and the contents agree afterwards
as far as they agreed before (`Write.narrow_agree`). It may succeed where the call with all indices
does not, for a record can have a value that is too long in one that is left out. -/

namespace IndexedStore

variable {R σ α : Type}

/-! ## Contents that agree -/

/-- Contents agree on the rows and on the entries in some indices. -/
structure Contents.Agree (indices : List String) (h g : Contents) : Prop where
  rows : g.rows = h.rows
  entries : ∀ index ∈ indices, g.entries index = h.entries index

namespace Contents

variable {indices : List String} {h g : Contents}

theorem Agree.setRows (ha : h.Agree indices g) (rows : OrderedMap Bytes Bytes) :
    ({ h with rows := rows } : Contents).Agree indices { g with rows := rows } :=
  ⟨rfl, ha.entries⟩

/-- Edits per index do not mix the indices. -/
theorem Agree.editEach (ha : h.Agree indices g)
    (f : String → OrderedSet Bytes → OrderedSet Bytes) {all : List String} (hall : all.Nodup)
    (hsub : indices.Sublist all) :
    (h.editEach f all).Agree indices (g.editEach f indices) := by
  refine ⟨by rw [rows_editEach, rows_editEach, ha.rows], fun index hindex => ?_⟩
  rw [entries_editEach f (hall.sublist hsub), entries_editEach f hall, if_pos hindex,
    if_pos (hsub.subset hindex), ha.entries index hindex]

/-- If there are contents, then there are others that agree with them. -/
def Carries {ε ε' : Type} (indices : List String) (r : Except ε Contents)
    (r' : Except ε' Contents) : Prop :=
  ∀ h, r = .ok h → ∃ g, r' = .ok g ∧ h.Agree indices g

namespace Carries

variable {ε ε' : Type} {r : Except ε Contents} {r' : Except ε' Contents}

theorem ok (ha : h.Agree indices g) :
    Carries indices (.ok h : Except ε Contents) (.ok g : Except ε' Contents) := by
  rintro h' ⟨⟩
  exact ⟨g, rfl, ha⟩

theorem error (e : ε) : Carries indices (.error e) r' := by
  rintro h' ⟨⟩

theorem bind (hr : Carries indices r r') {f : Contents → Except ε Contents}
    {f' : Contents → Except ε' Contents}
    (hf : ∀ h g, h.Agree indices g → Carries indices (f h) (f' g)) :
    Carries indices (r >>= f) (r' >>= f') := by
  cases r with
  | error e => exact .error e
  | ok h =>
    obtain ⟨g, rfl, ha⟩ := hr h rfl
    exact hf h g ha

theorem foldlM {f : Contents → α → Except ε Contents} {f' : Contents → α → Except ε' Contents}
    (hf : ∀ h g a, h.Agree indices g → Carries indices (f h a) (f' g a)) (l : List α)
    (ha : h.Agree indices g) : Carries indices (l.foldlM f h) (l.foldlM f' g) := by
  induction l generalizing h g with
  | nil => exact .ok ha
  | cons a rest ih =>
    rw [List.foldlM_cons, List.foldlM_cons]
    exact (hf h g a ha).bind fun h' g' ha' => ih ha'

theorem mapError {δ δ' : Type} (hr : Carries indices r r') (f : ε → δ) (f' : ε' → δ') :
    Carries indices (r.mapError f) (r'.mapError f') := by
  cases r with
  | error e => exact .error _
  | ok h =>
    obtain ⟨g, rfl, ha⟩ := hr h rfl
    exact .ok ha

end Carries

variable [Record R] {all : List String}

/-- Edits that are made for a record whose values are short enough. -/
theorem Agree.editFitting (ha : h.Agree indices g) (hall : all.Nodup) (hsub : indices.Sublist all)
    (record : R) (f : String → OrderedSet Bytes → OrderedSet Bytes) :
    Carries indices
      (match Index.oversizedIn? all record with
      | some value => .error (BucketError.oversized value)
      | none => .ok (h.editEach f all))
      (match Index.oversizedIn? indices record with
      | some value => .error (BucketError.oversized value)
      | none => .ok (g.editEach f indices)) := by
  cases hfault : Index.oversizedIn? all record with
  | some value => exact .error _
  | none =>
    have hfits := (Index.oversizedIn?_eq_none_iff all record).mp hfault
    rw [(Index.oversizedIn?_eq_none_iff indices record).mpr fun index hindex =>
      hfits index (hsub.subset hindex)]
    exact .ok (ha.editEach f hall hsub)

theorem Agree.file (ha : h.Agree indices g) (hall : all.Nodup) (hsub : indices.Sublist all)
    (record : R) : Carries indices (h.file all record) (g.file indices record) :=
  ha.editFitting hall hsub record _

theorem Agree.unfile (ha : h.Agree indices g) (hall : all.Nodup) (hsub : indices.Sublist all)
    (record : R) : Carries indices (h.unfile all record) (g.unfile indices record) :=
  ha.editFitting hall hsub record _

end Contents

variable [Record R]

/-- Records that fit all indices fit some. -/
theorem Index.oversizedAmong?_of_sublist {indices all : List String}
    (hsub : indices.Sublist all) {records : List R} (h : oversizedAmong? all records = none) :
    oversizedAmong? indices records = none :=
  (oversizedAmong?_eq_none_iff indices records).mpr fun record hrecord index hindex =>
    (oversizedAmong?_eq_none_iff all records).mp h record hrecord index (hsub.subset hindex)

/-! ## Calls -/

namespace Bucket

variable (b : Bucket R) {indices : List String} {h g : Contents}

omit [Record R]

/-- The bucket with other indices. -/
def withIndices (indices : List String) : Bucket R :=
  { b with config := { b.config with indices } }

@[simp] theorem codec_withIndices : (b.withIndices indices).codec = b.codec := rfl

@[simp] theorem indices_withIndices : (b.withIndices indices).indices = indices := rfl

variable [Record R]

theorem insertOne_agree (hdistinct : b.indices.Nodup) (hsub : indices.Sublist b.indices)
    (record : R) (ha : h.Agree indices g) : Contents.Carries indices (h.insertOne b record)
      (g.insertOne (b.withIndices indices) record) := by
  rw [Contents.insertOne, Contents.insertOne, ha.rows, codec_withIndices, indices_withIndices]
  split
  · exact .error _
  · split
    · exact .error _
    · cases b.codec.encode record with
      | error e => exact .error _
      | ok bytes => exact (ha.setRows _).file hdistinct hsub record

theorem deleteOne_agree (hdistinct : b.indices.Nodup) (hsub : indices.Sublist b.indices)
    (key : Bytes) (ha : h.Agree indices g) :
    Contents.Carries indices (h.deleteOne b key) (g.deleteOne (b.withIndices indices) key) := by
  rw [Contents.deleteOne, Contents.deleteOne, ha.rows, codec_withIndices, indices_withIndices]
  cases h.rows.get? key with
  | none => exact .ok ha
  | some bytes =>
    dsimp only
    cases b.codec.decode bytes with
    | error e => exact .error _
    | ok record => exact (ha.setRows _).unfile hdistinct hsub record

theorem fetchEach_withIndices (hrows : g.rows = h.rows) (seen : List Bytes) (records : List R) :
    g.fetchEach (b.withIndices indices) seen records = h.fetchEach b seen records := by
  induction records generalizing seen with
  | nil => rfl
  | cons record rest ih => simp only [Contents.fetchEach, hrows, ih, codec_withIndices]

/-- Records that are fetched with all indices are fetched with some. -/
theorem fetch_agree (hsub : indices.Sublist b.indices) (hrows : g.rows = h.rows)
    {records stored : List R} (hfetch : h.fetch b records = .ok stored) :
    g.fetch (b.withIndices indices) records = .ok stored := by
  rw [Contents.fetch] at hfetch ⊢
  rw [b.fetchEach_withIndices hrows, indices_withIndices]
  cases heach : h.fetchEach b [] records with
  | error e =>
    rw [heach] at hfetch
    cases hfetch
  | ok found =>
    rw [heach] at hfetch
    cases hfault : Index.oversizedAmong? b.indices found with
    | some value =>
      simp only [hfault] at hfetch
      cases hfetch
    | none =>
      simp only [hfault] at hfetch
      cases hfetch
      simp only [Index.oversizedAmong?_of_sublist hsub hfault]

theorem storeOne_agree (record : R) (ha : h.Agree indices g) :
    Contents.Carries indices (h.storeOne b record)
      (g.storeOne (b.withIndices indices) record) := by
  rw [Contents.storeOne, Contents.storeOne, ha.rows, codec_withIndices]
  cases b.codec.encode record with
  | error e => exact .error _
  | ok bytes => exact .ok (ha.setRows _)

theorem refileOne_agree (hdistinct : b.indices.Nodup) (hsub : indices.Sublist b.indices)
    (row : Bytes × Bytes) (ha : h.Agree indices g) :
    Contents.Carries indices (h.refileOne b.codec b.indices row)
      (g.refileOne b.codec indices row) := by
  rw [Contents.refileOne, Contents.refileOne]
  cases b.codec.decode row.2 with
  | error e => exact .error _
  | ok record =>
    dsimp only
    split
    · exact .error _
    · exact ha.file hdistinct hsub record

theorem replace_agree (hdistinct : b.indices.Nodup) (hsub : indices.Sublist b.indices)
    (stored mutated : List R) (ha : h.Agree indices g) :
    Contents.Carries indices (h.replace b stored mutated)
      (g.replace (b.withIndices indices) stored mutated) := by
  rw [Contents.replace, Contents.replace, indices_withIndices]
  cases firstDifference? (sortedKeys stored) (sortedKeys mutated) with
  | some keys => exact .error _
  | none =>
    dsimp only
    cases hfault : Index.oversizedAmong? b.indices mutated with
    | some value => exact .error _
    | none =>
      rw [Index.oversizedAmong?_of_sublist hsub hfault]
      exact .foldlM (fun h' g' record => b.storeOne_agree record) mutated
        (ha.editEach _ hdistinct hsub)

end Bucket

/-- **A call that succeeds** does the same on a bucket with fewer indices. -/
theorem Write.narrow_agree (b : Bucket R) (hdistinct : b.indices.Nodup) {indices : List String}
    (hsub : indices.Sublist b.indices) {h g : Contents} (ha : h.Agree indices g) (c : Context σ)
    (w : Write σ R) :
    Contents.Carries indices (w.contents b c h) (w.contents (b.withIndices indices) c g) := by
  cases w with
  | insert records =>
    exact (Contents.Carries.foldlM (fun h' g' record => b.insertOne_agree hdistinct hsub record)
      records ha).mapError _ _
  | update records mutator =>
    rw [contents, contents, Contents.update, Contents.update]
    cases hfetch : h.fetch b records with
    | error e => exact .error _
    | ok stored =>
      rw [b.fetch_agree hsub ha.rows hfetch]
      dsimp only
      cases mutator stored.length (.whole stored) c with
      | error stop c' => exact .error _
      | ok mutated c' => exact (b.replace_agree hdistinct hsub stored mutated.val ha).mapError _ _
  | delete keys =>
    exact (Contents.Carries.foldlM (fun h' g' key => b.deleteOne_agree hdistinct hsub key)
      keys ha).mapError _ _
  | reindex =>
    rw [contents, contents, ha.rows]
    exact (Contents.Carries.foldlM (fun h' g' row => b.refileOne_agree hdistinct hsub row)
      h.rows.toList ⟨rfl, fun _ _ => rfl⟩).mapError _ _

end IndexedStore
