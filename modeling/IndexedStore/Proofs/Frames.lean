import IndexedStore.Proofs.Tables

set_option autoImplicit false

/-! # Frames

What a call does to a store is said in part by what it leaves alone. A relation between stores that
holds where nothing was changed, and of two changes in a row if it holds of each, is kept by
sequencing (`Frame`). Editing a bucket comes down to a few edits: opening the primary table, putting
rows into it and putting entries into index tables. What a frame says about these (`Frame.Edits`) it
says about all calls that are made of them. -/

namespace IndexedStore

/-- A relation between stores that is kept by sequencing. -/
structure Frame where
  /-- From one store to another only that was done which the frame allows. -/
  holds : Store → Store → Prop
  refl : ∀ s, holds s s
  trans : ∀ {s s' s''}, holds s s' → holds s' s'' → holds s s''

namespace Frame

/-- The frame allows putting entries into given index tables and taking them out. -/
def Files (F : Frame) (indices : List String) : Prop :=
  ∀ s : Store, ∀ index ∈ indices, ∀ entries entries',
    s.table? index = some (.index entries) → F.holds s (s.put index (.index entries'))

/-- The frame allows editing the tables of a bucket. -/
structure Edits (F : Frame) (config : BucketConfig) : Prop where
  /-- The primary table is opened, and created if it is absent. -/
  opened : ∀ s : Store, s.OfKind .primary config.name →
    F.holds s (s.opened .primary config.name)
  /-- Rows are put into the primary table or taken out. -/
  rows : ∀ (s : Store) rows rows', s.table? config.name = some (.primary rows) →
    F.holds s (s.put config.name (.primary rows'))
  /-- Entries are put into the index tables or taken out. -/
  files : F.Files config.indices

variable {F : Frame}

theorem of_eq {s s' : Store} (h : s' = s) : F.holds s s' :=
  h ▸ F.refl s

/-- Edits one after the other are allowed if each of them is. -/
theorem foldl {f : Store → Bytes → Store} (h : ∀ s e, F.holds s (f s e)) (l : List Bytes)
    (s : Store) : F.holds s (l.foldl f s) := by
  induction l generalizing s with
  | nil => exact F.refl s
  | cons e rest ih => exact F.trans (h s e) (ih (f s e))

namespace Files

variable {indices : List String} {index : String}

theorem putEntries (hF : F.Files indices) (hindex : index ∈ indices) (s : Store)
    (entries : List Bytes) : F.holds s (s.putEntries index entries) := by
  refine foldl (fun s entry => ?_) entries s
  unfold Store.putEntry
  split
  · next ht => exact hF s index hindex _ _ ht
  · exact F.refl s

theorem eraseEntries (hF : F.Files indices) (hindex : index ∈ indices) (s : Store)
    (entries : List Bytes) : F.holds s (s.eraseEntries index entries) := by
  refine foldl (fun s entry => ?_) entries s
  unfold Store.eraseEntry
  split
  · next ht => exact hF s index hindex _ _ ht
  · exact F.refl s

end Files

namespace Edits

variable {config : BucketConfig}

theorem putRow (hF : F.Edits config) (s : Store) (key value : Bytes) :
    F.holds s (s.putRow config.name key value) := by
  unfold Store.putRow
  split
  · next ht => exact hF.rows s _ _ ht
  · exact F.refl s

theorem eraseRow (hF : F.Edits config) (s : Store) (key : Bytes) :
    F.holds s (s.eraseRow config.name key) := by
  unfold Store.eraseRow
  split
  · next ht => exact hF.rows s _ _ ht
  · exact F.refl s

end Edits

/-! ## Some frames -/

/-- The frame that allows everything. -/
def any : Frame where
  holds _ _ := True
  refl _ := trivial
  trans _ _ := trivial

theorem any_edits (config : BucketConfig) : any.Edits config where
  opened _ _ := trivial
  rows _ _ _ _ := trivial
  files _ _ _ _ _ _ := trivial

/-- The frame in which nothing is changed. -/
def unchanged : Frame where
  holds s s' := s' = s
  refl _ := rfl
  trans h h' := h'.trans h

/-- The frame in which the tables of some names are left as they are. -/
def leaving (names : String → Prop) : Frame where
  holds s s' := ∀ name, names name → s'.table? name = s.table? name
  refl _ _ _ := rfl
  trans h h' name hname := (h' name hname).trans (h name hname)

theorem leaving_files {names : String → Prop} {indices : List String}
    (h : ∀ index ∈ indices, ¬ names index) : (leaving names).Files indices := by
  intro s index hindex entries entries' _ name hname
  have hne : name ≠ index := fun he => h index hindex (he ▸ hname)
  rw [Store.table?_put, if_neg hne]

theorem leaving_edits (config : BucketConfig) :
    (leaving fun name => name ≠ config.name ∧ name ∉ config.indices).Edits config where
  opened s _ name hname := by rw [Store.table?_opened, if_neg hname.1]
  rows s _ _ _ name hname := by rw [Store.table?_put, if_neg hname.1]
  files := leaving_files fun _ hindex hname => hname.2 hindex

/-- The frame in which no table is lost. -/
def lasting : Frame where
  holds s s' := ∀ name, s.table? name ≠ none → s'.table? name ≠ none
  refl _ _ h := h
  trans h h' name hname := h' name (h name hname)

theorem lasting_put {s : Store} (name : String) (t : Table) :
    lasting.holds s (s.put name t) := by
  intro other hother
  rw [Store.table?_put]
  split
  · exact Option.some_ne_none t
  · exact hother

theorem lasting_edits (config : BucketConfig) : lasting.Edits config where
  opened s _ other hother := by
    rw [Store.table?_opened]
    split
    · exact Option.some_ne_none _
    · exact hother
  rows _ _ _ _ := lasting_put _ _
  files _ _ _ _ _ _ := lasting_put _ _

/-- The frame in which index tables stay index tables. -/
def filing : Frame where
  holds s s' := ∀ name, (∃ entries, s.table? name = some (.index entries)) →
    ∃ entries, s'.table? name = some (.index entries)
  refl _ _ h := h
  trans h h' name hname := h' name (h name hname)

theorem filing_files (indices : List String) : filing.Files indices := by
  intro s index _ _ entries _ name hname
  rw [Store.table?_put]
  split
  · exact ⟨entries, rfl⟩
  · exact hname

theorem filing_edits (config : BucketConfig) : filing.Edits config where
  opened s _ name hname := by
    obtain ⟨entries, hentries⟩ := hname
    refine ⟨entries, ?_⟩
    rw [Store.table?_opened]
    split
    · next he => rw [← he, hentries, Option.getD_some]
    · exact hentries
  rows s _ _ hrows name hname := by
    obtain ⟨entries, hentries⟩ := hname
    have hne : name ≠ config.name := fun he => by
      rw [he, hrows] at hentries
      cases hentries
    exact ⟨entries, by rw [Store.table?_put, if_neg hne, hentries]⟩
  files := filing_files _

/-- The frame in which a name comes to stand for no table of another kind than primary tables. -/
def storing (name : String) : Frame where
  holds s s' := s.OfKind .primary name → s'.OfKind .primary name
  refl _ h := h
  trans h h' hname := h' (h hname)

theorem storing_edits (config : BucketConfig) : (storing config.name).Edits config where
  opened _ hkind _ := Store.ofKind_of_table? (Store.table?_opened_primary hkind)
  rows s _ rows' _ _ := Store.ofKind_of_table? (t := .primary rows')
    ((Store.table?_put ..).trans (if_pos rfl))
  files s index _ entries entries' hentries hkind t ht := by
    rw [Store.table?_put] at ht
    split at ht
    · next he => cases hkind _ (he ▸ hentries)
    · exact hkind t ht

end Frame

end IndexedStore
