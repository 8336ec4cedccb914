import IndexedStore.Proofs.Agreement

set_option autoImplicit false

/-! # What a call has to do with other keys

A call that inserts, updates or deletes works on the rows of its own keys and on the entries of
records with these keys. It goes by no others (`Contents.Local.blind`): in contents that have the
same of those it ends in the same way. And it changes no others (`Contents.Local.frame`).

The second is not so without a condition. A row that is read as a record with another key than the
row's own would have the entries of that other key taken out; so the rows of the keys must be in
their place (`Contents.PlacedAt`). For the first nothing is needed: every edit of a table decides
about an entry by that entry alone. -/

namespace IndexedStore

/-- The entry is one of a record with one of the keys. -/
def CompositeKey.IsOf (keys : List Bytes) (e : Bytes) : Prop :=
  ∃ value, ∃ key ∈ keys, entry value key = e

/-- An entry tells the key of its record. -/
theorem CompositeKey.IsOf.not_of {keys others : List Bytes} (h : ∀ k ∈ keys, k ∉ others) {e : Bytes}
    (he : IsOf keys e) : ¬ IsOf others e := by
  rintro ⟨value', key', hkey', he'⟩
  obtain ⟨value, key, hkey, rfl⟩ := he
  exact h key hkey ((entry_inj he').2 ▸ hkey')

variable {R σ : Type}

namespace Contents

/-! ## Contents that are the same in part -/

/-- The contents have the same rows under the keys that `p` says and the same entries among those
that `q` says. -/
structure Same (p q : Bytes → Prop) (h g : Contents) : Prop where
  rows : ∀ k, p k → h.rows.get? k = g.rows.get? k
  entries : ∀ index e, q e → ((h.entries index).contains e ↔ (g.entries index).contains e)

/-- The same at some keys. -/
abbrev SameAt (keys : List Bytes) : Contents → Contents → Prop :=
  Same (· ∈ keys) (CompositeKey.IsOf keys)

/-- The same but for some keys. -/
abbrev SameOff (keys : List Bytes) : Contents → Contents → Prop :=
  Same (· ∉ keys) (¬ CompositeKey.IsOf keys ·)

namespace Same

variable {p q p' q' : Bytes → Prop} {h g i : Contents}

theorem refl (h : Contents) : Same p q h h :=
  ⟨fun _ _ => rfl, fun _ _ _ => Iff.rfl⟩

theorem symm (hs : Same p q h g) : Same p q g h :=
  ⟨fun k hk => (hs.rows k hk).symm, fun index e he => (hs.entries index e he).symm⟩

theorem trans (hs : Same p q h g) (hs' : Same p q g i) : Same p q h i :=
  ⟨fun k hk => (hs.rows k hk).trans (hs'.rows k hk),
    fun index e he => (hs.entries index e he).trans (hs'.entries index e he)⟩

theorem mono (hs : Same p q h g) (hp : ∀ k, p' k → p k) (hq : ∀ e, q' e → q e) : Same p' q' h g :=
  ⟨fun k hk => hs.rows k (hp k hk), fun index e he => hs.entries index e (hq e he)⟩

theorem insert (hs : Same p q h g) (key bytes : Bytes) :
    Same p q { h with rows := h.rows.insert key bytes }
      { g with rows := g.rows.insert key bytes } := by
  refine ⟨fun k hk => ?_, hs.entries⟩
  simp only [OrderedMap.get?_insert, hs.rows k hk]

theorem erase (hs : Same p q h g) (key : Bytes) :
    Same p q { h with rows := h.rows.erase key } { g with rows := g.rows.erase key } := by
  refine ⟨fun k hk => ?_, hs.entries⟩
  simp only [OrderedMap.get?_erase, hs.rows k hk]

theorem setIndex (hs : Same p q h g) (index : String) {t t' : OrderedSet Bytes}
    (ht : ∀ e, q e → (t.contains e ↔ t'.contains e)) :
    Same p q (h.setIndex index t) (g.setIndex index t') := by
  refine ⟨hs.rows, fun other e he => ?_⟩
  by_cases hother : other = index
  · simpa [Contents.setIndex, hother] using ht e he
  · simpa [Contents.setIndex, hother] using hs.entries other e he

/-- Edits that decide about each entry by that entry alone. -/
theorem editEach (hs : Same p q h g) {f : String → OrderedSet Bytes → OrderedSet Bytes}
    (hf : ∀ index t t' e, (t.contains e ↔ t'.contains e) →
      ((f index t).contains e ↔ (f index t').contains e)) (indices : List String) :
    Same p q (h.editEach f indices) (g.editEach f indices) := by
  induction indices generalizing h g with
  | nil => exact hs
  | cons index rest ih =>
    exact ih (hs.setIndex index fun e he => hf index _ _ e (hs.entries index e he))

end Same

variable {keys : List Bytes} {h g : Contents}

theorem sameOff_insert {key : Bytes} (hkey : key ∈ keys) (h : Contents) (bytes : Bytes) :
    SameOff keys h { h with rows := h.rows.insert key bytes } := by
  refine ⟨fun k hk => ?_, fun _ _ _ => Iff.rfl⟩
  have hne : k ≠ key := fun he => hk (he ▸ hkey)
  rw [OrderedMap.get?_insert, if_neg hne]

theorem sameOff_erase {key : Bytes} (hkey : key ∈ keys) (h : Contents) :
    SameOff keys h { h with rows := h.rows.erase key } := by
  refine ⟨fun k hk => ?_, fun _ _ _ => Iff.rfl⟩
  have hne : k ≠ key := fun he => hk (he ▸ hkey)
  rw [OrderedMap.get?_erase, if_neg hne]

theorem sameOff_setIndex {index : String} {t : OrderedSet Bytes}
    (ht : ∀ e, ¬ CompositeKey.IsOf keys e → ((h.entries index).contains e ↔ t.contains e)) :
    SameOff keys h (h.setIndex index t) := by
  refine ⟨fun _ _ => rfl, fun other e he => ?_⟩
  by_cases hother : other = index
  · simpa [setIndex, hother] using ht e he
  · simp [setIndex, hother]

/-- Edits that touch no entries of records with other keys. -/
theorem sameOff_editEach {f : String → OrderedSet Bytes → OrderedSet Bytes}
    (hf : ∀ index t e, ¬ CompositeKey.IsOf keys e → (t.contains e ↔ (f index t).contains e))
    (indices : List String) (h : Contents) : SameOff keys h (h.editEach f indices) := by
  induction indices generalizing h with
  | nil => exact .refl h
  | cons index rest ih => exact (sameOff_setIndex (hf index _)).trans (ih _)

/-! ## Ending in the same way -/

/-- Both end with contents that are the same at some keys, or both with the same error. -/
inductive Alike {ε : Type} (keys : List Bytes) : Except ε Contents → Except ε Contents → Prop
  | ok {h g : Contents} : SameAt keys h g → Alike keys (.ok h) (.ok g)
  | error (e : ε) : Alike keys (.error e) (.error e)

namespace Alike

variable {ε : Type} {r r' : Except ε Contents}

theorem bind (hr : Alike keys r r') {f f' : Contents → Except ε Contents}
    (hf : ∀ h g, SameAt keys h g → Alike keys (f h) (f' g)) :
    Alike keys (r >>= f) (r' >>= f') := by
  cases hr with
  | ok hs => exact hf _ _ hs
  | error e => exact .error e

/-- Batches end in the same way if their members do. -/
theorem foldlM {α : Type} {f : Contents → α → Except ε Contents} {l : List α}
    (hf : ∀ a ∈ l, ∀ h g, SameAt keys h g → Alike keys (f h a) (f g a)) (hs : SameAt keys h g) :
    Alike keys (l.foldlM f h) (l.foldlM f g) := by
  induction l generalizing h g with
  | nil => exact .ok hs
  | cons a rest ih =>
    obtain ⟨ha, hrest⟩ := List.forall_mem_cons.mp hf
    simp only [List.foldlM_cons]
    exact (ha h g hs).bind fun h' g' hs' => ih hrest hs'

theorem mapError (hr : Alike keys r r') {ε' : Type} (f : ε → ε') :
    Alike keys (r.mapError f) (r'.mapError f) := by
  cases hr with
  | ok hs => exact .ok hs
  | error e => exact .error (f e)

end Alike

/-- What is made of contents depends on no rows and entries but those of some keys and, of contents
with a property `I`, leaves the others as they are. -/
structure Local {ε : Type} (I : Contents → Prop) (keys : List Bytes)
    (F : Contents → Except ε Contents) : Prop where
  blind : ∀ h g, SameAt keys h g → Alike keys (F h) (F g)
  frame : ∀ h h', I h → F h = .ok h' → SameOff keys h h'

namespace Local

variable {ε : Type} {I J : Contents → Prop} {F : Contents → Except ε Contents}

theorem mono (hF : Local I keys F) (hIJ : ∀ h, J h → I h) : Local J keys F :=
  ⟨hF.blind, fun h h' hJ => hF.frame h h' (hIJ h hJ)⟩

theorem mapError (hF : Local I keys F) {ε' : Type} (f : ε → ε') :
    Local I keys fun h => (F h).mapError f :=
  ⟨fun h g hs => (hF.blind h g hs).mapError f,
    fun h h' hI hrun => hF.frame h h' hI (of_mapError_ok hrun)⟩

/-- **A batch** is local if its members are, and they keep the property. -/
theorem foldlM {α : Type} {f : Contents → α → Except ε Contents} {l : List α}
    (hf : ∀ a ∈ l, Local I keys (f · a)) (hkeeps : ∀ a ∈ l, ∀ h h', I h → f h a = .ok h' → I h') :
    Local I keys (l.foldlM f ·) := by
  refine ⟨fun h g hs => .foldlM (fun a ha => (hf a ha).blind) hs, ?_⟩
  intro h h' hI hrun
  induction l generalizing h with
  | nil =>
    cases hrun
    exact .refl _
  | cons a rest ih =>
    obtain ⟨ha, hrest⟩ := List.forall_mem_cons.mp hf
    obtain ⟨hka, hkrest⟩ := List.forall_mem_cons.mp hkeeps
    simp only [List.foldlM_cons] at hrun
    obtain ⟨h₁, hfirst, hrun⟩ := exists_of_bind_eq_ok hrun
    exact (ha.frame h h₁ hI hfirst).trans (ih hrest hkrest h₁ (hka h h₁ hI hfirst) hrun)

end Local

/-! ## The entries of records -/

variable [Record R]

/-- The entries that records call for are theirs. -/
theorem isOf_of_expected {records : List R} (hkeys : ∀ r ∈ records, Record.key r ∈ keys)
    {index : String} {e : Bytes} (he : (Index.expected records index).contains e) :
    CompositeKey.IsOf keys e := by
  obtain ⟨r, hr, value, -, rfl⟩ := (Index.contains_expected records index e).mp he
  exact ⟨value, Record.key r, hkeys r hr, rfl⟩

theorem alike_file (indices : List String) (record : R) (hs : SameAt keys h g) :
    Alike keys (h.file indices record) (g.file indices record) := by
  unfold file
  split
  · exact .error _
  · refine .ok (hs.editEach (fun index t t' e ht => ?_) indices)
    simp only [OrderedMap.contains_union, ht]

theorem alike_unfile (indices : List String) (record : R) (hs : SameAt keys h g) :
    Alike keys (h.unfile indices record) (g.unfile indices record) := by
  unfold unfile
  split
  · exact .error _
  · refine .ok (hs.editEach (fun index t t' e ht => ?_) indices)
    simp only [OrderedMap.contains_minus, ht]

theorem sameOff_file {indices : List String} {record : R} (hkey : Record.key record ∈ keys)
    {h' : Contents} (hrun : h.file indices record = .ok h') : SameOff keys h h' := by
  rw [eq_of_file hrun]
  refine sameOff_editEach (fun index t e he => ?_) indices h
  have hnot : ¬ (Index.expected [record] index).contains e = true := fun hin =>
    he (isOf_of_expected (List.forall_mem_singleton.mpr hkey) hin)
  simp [OrderedMap.contains_union, hnot]

theorem sameOff_unfile {indices : List String} {record : R} (hkey : Record.key record ∈ keys)
    {h' : Contents} (hrun : h.unfile indices record = .ok h') : SameOff keys h h' := by
  rw [eq_of_unfile hrun]
  refine sameOff_editEach (fun index t e he => ?_) indices h
  have hnot : ¬ (Index.expected [record] index).contains e = true := fun hin =>
    he (isOf_of_expected (List.forall_mem_singleton.mpr hkey) hin)
  simp [OrderedMap.contains_minus, hnot]

theorem sameOff_exchange {stored mutated : List R} (hstored : ∀ r ∈ stored, Record.key r ∈ keys)
    (hmutated : ∀ r ∈ mutated, Record.key r ∈ keys) (indices : List String) (h : Contents) :
    SameOff keys h (h.exchange indices stored mutated) := by
  refine sameOff_editEach (fun index t e he => ?_) indices h
  have hbefore : ¬ (Index.expected stored index).contains e = true := fun hin =>
    he (isOf_of_expected hstored hin)
  have hafter : ¬ (Index.expected mutated index).contains e = true := fun hin =>
    he (isOf_of_expected hmutated hin)
  simp [OrderedMap.contains_exchange, hbefore, hafter]

/-! ## Inserting -/

theorem contains_rows_of_sameAt (hs : SameAt keys h g) {key : Bytes} (hkey : key ∈ keys) :
    h.rows.contains key = g.rows.contains key := by
  rw [OrderedMap.contains, OrderedMap.contains, hs.rows key hkey]

theorem local_insertOne (b : Bucket R) {record : R} (hkey : Record.key record ∈ keys) :
    Local (fun _ => True) keys fun h => h.insertOne b record := by
  refine ⟨fun h g hs => ?_, fun h h' _ hrun => ?_⟩
  · simp only [insertOne, contains_rows_of_sameAt hs hkey]
    split
    · exact .error _
    · split
      · exact .error _
      · split
        · exact .error _
        · exact alike_file b.indices record (hs.insert _ _)
  · obtain ⟨-, bytes, -, hfile⟩ := of_insertOne hrun
    exact (sameOff_insert hkey h bytes).trans (sameOff_file hkey hfile)

/-- **Inserting** works on the keys of the records. -/
theorem local_insertAll (b : Bucket R) {records : List R}
    (hkeys : ∀ r ∈ records, Record.key r ∈ keys) :
    Local (fun _ => True) keys (insertAll b records) :=
  .foldlM (fun r hr => local_insertOne b (hkeys r hr)) fun _ _ _ _ _ _ => trivial

/-! ## Rows in their place -/

/-- The rows of the keys that are read as records have the keys that these report. -/
def PlacedAt (codec : Codec R) (keys : List Bytes) (h : Contents) : Prop :=
  ∀ key ∈ keys, ∀ bytes, h.rows.get? key = some bytes →
    ∀ record, codec.decode bytes = .ok record → Record.key record = key

theorem placedAt_of_inPlace {codec : Codec R} (hplace : codec.InPlace h.rows.toList)
    (keys : List Bytes) : h.PlacedAt codec keys :=
  fun key _ bytes hrow record hdecode =>
    hplace (key, bytes) ((OrderedMap.mem_toList_iff _ _ _).mpr hrow) record hdecode

theorem PlacedAt.of_sameAt {codec : Codec R} (hplace : h.PlacedAt codec keys)
    (hs : SameAt keys h g) : g.PlacedAt codec keys :=
  fun key hkey bytes hrow => hplace key hkey bytes (hs.rows key hkey ▸ hrow)

/-! ## Deleting -/

/-- What is left after a deletion was there before. -/
theorem get?_of_deleteOne {b : Bucket R} {key : Bytes} {h' : Contents}
    (hrun : h.deleteOne b key = .ok h') {k bytes : Bytes} (hrow : h'.rows.get? k = some bytes) :
    h.rows.get? k = some bytes := by
  rcases of_deleteOne hrun with ⟨-, rfl⟩ | ⟨stored, record, -, -, hunfile⟩
  · exact hrow
  · rw [eq_of_unfile hunfile, rows_editEach, OrderedMap.get?_erase] at hrow
    split at hrow
    · cases hrow
    · exact hrow

theorem local_deleteOne (b : Bucket R) {key : Bytes} (hkey : key ∈ keys) :
    Local (PlacedAt b.codec keys) keys fun h => h.deleteOne b key := by
  refine ⟨fun h g hs => ?_, fun h h' hplace hrun => ?_⟩
  · simp only [deleteOne, hs.rows key hkey]
    split
    · exact .ok hs
    · split
      · exact .error _
      · exact alike_unfile b.indices _ (hs.erase key)
  · rcases of_deleteOne hrun with ⟨-, rfl⟩ | ⟨bytes, record, hrow, hdecode, hunfile⟩
    · exact .refl h'
    · have hrecord : Record.key record ∈ keys := (hplace key hkey bytes hrow record hdecode) ▸ hkey
      exact (sameOff_erase hkey h).trans (sameOff_unfile hrecord hunfile)

/-- **Deleting** works on its keys, if their rows are in their place. -/
theorem local_deleteAll (b : Bucket R) {batch : List Bytes} (hkeys : ∀ k ∈ batch, k ∈ keys) :
    Local (PlacedAt b.codec keys) keys (deleteAll b batch) := by
  refine .foldlM (fun k hk => local_deleteOne b (hkeys k hk)) fun k _ h h' hplace hrun => ?_
  exact fun key hkey bytes hrow => hplace key hkey bytes (get?_of_deleteOne hrun hrow)

/-! ## Updating -/

theorem fetchEach_congr (b : Bucket R) (hs : SameAt keys h g) {records : List R}
    (hkeys : ∀ r ∈ records, Record.key r ∈ keys) (seen : List Bytes) :
    h.fetchEach b seen records = g.fetchEach b seen records := by
  induction records generalizing seen with
  | nil => rfl
  | cons record rest ih =>
    obtain ⟨hrecord, hrest⟩ := List.forall_mem_cons.mp hkeys
    simp only [fetchEach, hs.rows _ hrecord, ih hrest]

theorem fetch_congr (b : Bucket R) (hs : SameAt keys h g) {records : List R}
    (hkeys : ∀ r ∈ records, Record.key r ∈ keys) : h.fetch b records = g.fetch b records := by
  rw [fetch, fetch, fetchEach_congr b hs hkeys]

/-- What is fetched from rows in their place has the keys that were asked for. -/
theorem keys_of_fetchEach {b : Bucket R} (hplace : h.PlacedAt b.codec keys) {records : List R}
    (hkeys : ∀ r ∈ records, Record.key r ∈ keys) {seen : List Bytes} {stored : List R}
    (hrun : h.fetchEach b seen records = .ok stored) : ∀ r ∈ stored, Record.key r ∈ keys := by
  induction records generalizing seen stored with
  | nil =>
    cases hrun
    simp
  | cons record rest ih =>
    obtain ⟨hrecord, hrest⟩ := List.forall_mem_cons.mp hkeys
    simp only [fetchEach] at hrun
    split at hrun
    · cases hrun
    · split at hrun
      · cases hrun
      · next bytes hrow =>
        split at hrun
        · cases hrun
        · next first hdecode =>
          cases hothers : h.fetchEach b (Record.key record :: seen) rest with
          | error e =>
            rw [hothers] at hrun
            cases hrun
          | ok others =>
            rw [hothers] at hrun
            cases hrun
            have hfirst := hplace _ hrecord bytes hrow first hdecode
            exact List.forall_mem_cons.mpr ⟨hfirst ▸ hrecord, ih hrest hothers⟩

theorem alike_storeOne (b : Bucket R) (record : R) (hs : SameAt keys h g) :
    Alike keys (h.storeOne b record) (g.storeOne b record) := by
  unfold storeOne
  split
  · exact .error _
  · exact .ok (hs.insert _ _)

theorem alike_replace (b : Bucket R) (stored mutated : List R) (hs : SameAt keys h g) :
    Alike keys (h.replace b stored mutated) (g.replace b stored mutated) := by
  unfold replace
  split
  · exact .error _
  · split
    · exact .error _
    · refine .foldlM (fun r _ h g hs => alike_storeOne b r hs)
        (hs.editEach (fun index t t' e ht => ?_) b.indices)
      simp only [OrderedMap.contains_exchange, ht]

theorem local_storeOne (b : Bucket R) {record : R} (hkey : Record.key record ∈ keys) :
    Local (fun _ => True) keys fun h => h.storeOne b record := by
  refine ⟨fun h g hs => alike_storeOne b record hs, fun h h' _ hrun => ?_⟩
  simp only [storeOne] at hrun
  split at hrun
  · cases hrun
  · cases hrun
    exact sameOff_insert hkey h _

/-- Replacing touches the keys of the stored records only, for the mutated ones have no others. -/
theorem sameOff_replace {b : Bucket R} {stored mutated : List R}
    (hlength : stored.length = mutated.length) (hkeys : ∀ r ∈ stored, Record.key r ∈ keys)
    {h' : Contents} (hrun : h.replace b stored mutated = .ok h') : SameOff keys h h' := by
  unfold replace at hrun
  split at hrun
  · cases hrun
  · next hdifference =>
    have hperm := (firstDifference?_eq_none_iff hlength).mp hdifference
    have hmutated : ∀ r ∈ mutated, Record.key r ∈ keys := by
      intro r hr
      obtain ⟨o, ho, he⟩ := List.mem_map.mp (hperm.mem_iff.mp (List.mem_map_of_mem hr))
      exact he ▸ hkeys o ho
    have hstore : Local (fun _ => True) keys (mutated.foldlM (storeOne b) ·) :=
      .foldlM (fun r hr => local_storeOne b (hmutated r hr)) fun _ _ _ _ _ _ => trivial
    split at hrun
    · cases hrun
    · exact (sameOff_exchange hkeys hmutated b.indices h).trans (hstore.frame _ _ trivial hrun)

theorem keys_of_fetch {b : Bucket R} (hplace : h.PlacedAt b.codec keys) {records : List R}
    (hkeys : ∀ r ∈ records, Record.key r ∈ keys) {stored : List R}
    (hrun : h.fetch b records = .ok stored) : ∀ r ∈ stored, Record.key r ∈ keys := by
  unfold fetch at hrun
  split at hrun
  · cases hrun
  · next fetched hfetch =>
    split at hrun
    · cases hrun
    · cases hrun
      exact keys_of_fetchEach hplace hkeys hfetch

/-- **Updating** works on the keys of the records, if their rows are in their place. -/
theorem local_update (b : Bucket R) {records : List R} (hkeys : ∀ r ∈ records, Record.key r ∈ keys)
    (mutator : Mutator σ R) (c : Context σ) :
    Local (PlacedAt b.codec keys) keys (update b records mutator c) := by
  refine ⟨fun h g hs => ?_, fun h h' hplace hrun => ?_⟩
  · simp only [update, fetch_congr b hs hkeys]
    split
    · exact .error _
    · split
      · exact .error _
      · exact (alike_replace b _ _ hs).mapError _
  · simp only [update] at hrun
    split at hrun
    · cases hrun
    · next stored hfetch =>
      split at hrun
      · cases hrun
      · next mutated c' hmutated =>
        exact sameOff_replace mutated.property.symm (keys_of_fetch hplace hkeys hfetch)
          (of_mapError_ok hrun)

end Contents

/-! ## All calls -/

/-- How a computation ends, whatever the context is then. -/
def Call.ending {α ε : Type} : EStateM.Result ε (Context σ) α → Except ε α
  | .ok a _ => .ok a
  | .error e _ => .error e

variable [Record R]

/-- The mutator is a function of the records that it is handed, and leaves the store as it is. -/
def Mutator.OfRecords (mutator : Mutator σ R) : Prop :=
  mutator.Tame ∧ ∀ n records c c', c.Quiet → c'.Quiet →
    Call.ending (mutator n records c) = Call.ending (mutator n records c')

/-- What an update makes of contents is then the same in every context. -/
theorem Contents.update_congr (b : Bucket R) {mutator : Mutator σ R} (hmutator : mutator.OfRecords)
    {c c' : Context σ} (hc : c.Quiet) (hc' : c'.Quiet) (records : List R) (h : Contents) :
    h.update b records mutator c = h.update b records mutator c' := by
  unfold update
  split
  · rfl
  · next stored _ =>
    have hend := hmutator.2 stored.length (.whole stored) c c' hc hc'
    cases hrun : mutator stored.length (.whole stored) c <;>
      cases hrun' : mutator stored.length (.whole stored) c' <;>
      simp_all [Call.ending]

/-- The keys that a call has to do with. Reindexing has to do with all of them. -/
def Write.keys : Write σ R → List Bytes
  | insert records | update records _ => records.map Record.key
  | delete keys => keys
  | reindex => []

/-- The call is an insertion, a deletion or an update, and its mutator is a function of the records
that it is handed. -/
structure Write.OfRecords (w : Write σ R) : Prop where
  mutators : w.Mutators Mutator.OfRecords
  keyed : w ≠ .reindex

variable {w : Write σ R}

omit [Record R] in
theorem Write.OfRecords.tame (hw : w.OfRecords) : w.Mutators Mutator.Tame :=
  hw.mutators.imp fun _ hmutator => hmutator.1

theorem Write.OfRecords.contents_congr (hw : w.OfRecords) (b : Bucket R) {c c' : Context σ}
    (hc : c.Quiet) (hc' : c'.Quiet) (h : Contents) : w.contents b c h = w.contents b c' h := by
  cases w with
  | update records mutator => exact Contents.update_congr b hw.mutators hc hc' records h
  | insert _ | delete _ | reindex => rfl

/-- **A call** works on its keys, if their rows are in their place. -/
theorem Write.OfRecords.isLocal (hw : w.OfRecords) (b : Bucket R) (c : Context σ) :
    Contents.Local (Contents.PlacedAt b.codec w.keys) w.keys fun h => w.contents b c h := by
  cases w with
  | insert records =>
    exact ((Contents.local_insertAll b fun r hr => List.mem_map_of_mem hr).mono
      fun _ _ => trivial).mapError _
  | update records mutator =>
    exact Contents.local_update b (fun r hr => List.mem_map_of_mem hr) mutator c
  | delete keys => exact (Contents.local_deleteAll b fun k hk => hk).mapError _
  | reindex => exact (hw.keyed rfl).elim

end IndexedStore
