import IndexedStore.Proofs.Inserting
import IndexedStore.Proofs.Rebuilding

set_option autoImplicit false

/-! # What a deletion does

A deletion does not look up which entries a record has in the indices. It reads the row and takes out
the entries that the record calls for, whether they are there or not, and in whatever place the row
stands. So in a store that holds anything at all it can only take out, and what it takes out for one
key has nothing to do with the order in which it comes to the keys (`Contents.Loses`). It succeeds if
it can read every row that it takes out (`Contents.Removable`). Hence a deletion is a matter of which
rows are there and asked for, and no more (`Bucket.delete_exact`).

That what was inserted can be deleted again, and leaves nothing behind, needs more: no other record may
call for an entry that is taken out, which is so where the tables are those of their records. -/

namespace IndexedStore

variable {R σ : Type} [Record R]

namespace Contents

/-! ## What is lost -/

/-- If there is a row of the key, it is read as a record that can be taken out of the indices. -/
def Removable (b : Bucket R) (h : Contents) (key : Bytes) : Prop :=
  ∀ bytes, h.rows.get? key = some bytes →
    ∃ record, b.codec.decode bytes = .ok record ∧ Index.Fits b.indices record

/-- The contents have lost the rows of keys and the entries that their records call for, and nothing
else. -/
structure Loses (b : Bucket R) (keys : List Bytes) (h h' : Contents) : Prop where
  rows : ∀ key, h'.rows.get? key = if key ∈ keys then none else h.rows.get? key
  entries : ∀ index ∈ b.indices, ∀ e, (h'.entries index).contains e = true ↔
    (h.entries index).contains e = true ∧ ∀ key ∈ keys, ∀ bytes record,
      h.rows.get? key = some bytes → b.codec.decode bytes = .ok record →
        ¬ (Index.expected [record] index).contains e = true

variable {b : Bucket R} {h h₁ h' : Contents} {key : Bytes} {keys : List Bytes}

theorem Loses.nil (h : Contents) : Loses b [] h h :=
  ⟨fun _ => rfl, fun _ _ _ => by simp⟩

/-- What is lost in two steps. A key that comes again has no row any more. -/
theorem Loses.trans {more : List Bytes} (hl : Loses b keys h h₁) (hm : Loses b more h₁ h') :
    Loses b (keys ++ more) h h' := by
  refine ⟨fun key => ?_, fun index hindex e => ?_⟩
  · rw [hm.rows, hl.rows]
    by_cases hkeys : key ∈ keys <;> by_cases hmore : key ∈ more <;> simp [hkeys, hmore]
  · rw [hm.entries index hindex, hl.entries index hindex, and_assoc, List.forall_mem_append]
    refine and_congr_right fun _ => and_congr_right fun hkept => ?_
    constructor
    · intro hrest key hkey bytes record hrow hdecode
      by_cases hbefore : key ∈ keys
      · exact hkept key hbefore bytes record hrow hdecode
      · exact hrest key hkey bytes record (by rw [hl.rows, if_neg hbefore, hrow]) hdecode
    · intro hrest key hkey bytes record hrow hdecode
      rw [hl.rows] at hrow
      split at hrow
      · cases hrow
      · exact hrest key hkey bytes record hrow hdecode

/-- Rows that are left can be removed just if they could be before. -/
theorem Loses.removable_iff (hl : Loses b keys h h₁) (key : Bytes) :
    h₁.Removable b key ↔ key ∈ keys ∨ h.Removable b key := by
  unfold Removable
  rw [hl.rows]
  by_cases hkey : key ∈ keys <;> simp [hkey]

/-- **What is lost depends on the keys that have a row.** -/
theorem Loses.place_eq {keys' : List Bytes} {h₂ : Contents}
    (hkeys : ∀ key, h.rows.contains key = true → (key ∈ keys ↔ key ∈ keys'))
    (hl : Loses b keys h h₁) (hl' : Loses b keys' h h₂) (s : Store) :
    s.place b.config h₁ = s.place b.config h₂ := by
  have hthere : ∀ {key bytes}, h.rows.get? key = some bytes → (key ∈ keys ↔ key ∈ keys') :=
    fun hrow => hkeys _ ((OrderedMap.contains_iff _ _).mpr ⟨_, hrow⟩)
  refine Store.place_congr (OrderedMap.ext_get? fun key => ?_) fun index hindex => ?_
  · rw [hl.rows, hl'.rows]
    cases hrow : h.rows.get? key with
    | none => simp
    | some bytes => simp [hthere hrow]
  · refine OrderedMap.ext_contains fun e => ?_
    rw [hl.entries index hindex, hl'.entries index hindex]
    refine and_congr_right fun _ => ⟨fun hall key hkey => ?_, fun hall key hkey => ?_⟩
    · exact fun bytes record hrow => hall key ((hthere hrow).mpr hkey) bytes record hrow
    · exact fun bytes record hrow => hall key ((hthere hrow).mp hkey) bytes record hrow

/-! ## Batches -/

/-- A key that has been deleted could be removed, and what it had is lost. -/
theorem loses_of_deleteOne (hdistinct : b.indices.Nodup) (hrun : h.deleteOne b key = .ok h') :
    h.Removable b key ∧ Loses b [key] h h' := by
  rcases of_deleteOne hrun with ⟨hnone, rfl⟩ | ⟨bytes, record, hrow, hdecode, hunfile⟩
  · refine ⟨fun bytes hrow => ?_, fun k => ?_, fun index _ e => ?_⟩
    · rw [hnone] at hrow
      cases hrow
    · by_cases hk : k = key <;> simp [hk, hnone]
    · simp [hnone]
  · have hfits : Index.Fits b.indices record := fits_of_unfile hunfile
    refine ⟨fun bytes' hrow' => ?_, fun k => ?_, fun index hindex e => ?_⟩
    · rw [hrow] at hrow'
      cases hrow'
      exact ⟨record, hdecode, hfits⟩
    · rw [eq_of_unfile hunfile, rows_editEach, OrderedMap.get?_erase]
      simp only [List.mem_singleton]
    · rw [eq_of_unfile hunfile, entries_editEach _ hdistinct, if_pos hindex]
      show ((h.entries index).minus (Index.expected [record] index)).contains e = true ↔ _
      rw [OrderedMap.contains_minus, List.forall_mem_singleton]
      refine and_congr_right fun _ => ⟨fun hnot bytes' record' hrow' hdecode' => ?_, fun hall => ?_⟩
      · rw [hrow] at hrow'
        cases hrow'
        rw [hdecode] at hdecode'
        cases hdecode'
        exact hnot
      · exact hall bytes record hrow hdecode

theorem deleteOne_of_removable (hremovable : h.Removable b key) :
    ∃ h', h.deleteOne b key = .ok h' := by
  unfold deleteOne
  cases hrow : h.rows.get? key with
  | none => exact ⟨h, rfl⟩
  | some bytes =>
    obtain ⟨record, hdecode, hfits⟩ := hremovable bytes hrow
    simp only [hdecode, unfile_of_fits hfits]
    exact ⟨_, rfl⟩

/-- **A batch that has been deleted** could be removed, and what it had is lost. -/
theorem loses_of_deleteAll (hdistinct : b.indices.Nodup) (hrun : h.deleteAll b keys = .ok h') :
    (∀ key ∈ keys, h.Removable b key) ∧ Loses b keys h h' := by
  induction keys generalizing h with
  | nil =>
    cases hrun
    exact ⟨fun key hkey => (by cases hkey), .nil _⟩
  | cons key rest ih =>
    rw [deleteAll, List.foldlM_cons] at hrun
    obtain ⟨h₁, hone, hrest⟩ := exists_of_bind_eq_ok hrun
    obtain ⟨hremovable, hlost⟩ := loses_of_deleteOne hdistinct hone
    obtain ⟨hmore, hlostMore⟩ := ih hrest
    refine ⟨List.forall_mem_cons.mpr ⟨hremovable, fun k hk => ?_⟩, hlost.trans hlostMore⟩
    rcases (hlost.removable_iff k).mp (hmore k hk) with hsame | hk
    · exact List.mem_singleton.mp hsame ▸ hremovable
    · exact hk

theorem deleteAll_of_removable (hdistinct : b.indices.Nodup)
    (hremovable : ∀ key ∈ keys, h.Removable b key) : ∃ h', h.deleteAll b keys = .ok h' := by
  induction keys generalizing h with
  | nil => exact ⟨h, rfl⟩
  | cons key rest ih =>
    obtain ⟨hfirst, hrest⟩ := List.forall_mem_cons.mp hremovable
    obtain ⟨h₁, hone⟩ := deleteOne_of_removable hfirst
    have hlost := (loses_of_deleteOne hdistinct hone).2
    obtain ⟨h', hall⟩ := ih fun k hk => (hlost.removable_iff k).mpr (.inr (hrest k hk))
    refine ⟨h', ?_⟩
    rw [deleteAll, List.foldlM_cons, hone]
    exact hall

/-! ## After an insertion -/

/-- Where the tables are those of their records, no entry is one of a record that can come in. -/
theorem Admits.foreign {stored records : List R} (ha : h.Admits b records)
    (hstored : b.codec.Legible b.indices h.rows.toList stored)
    (hexact : ∀ index ∈ b.indices, h.entries index = Index.expected stored index) :
    ∀ index ∈ b.indices, ∀ record ∈ records, ∀ e,
      (Index.expected [record] index).contains e = true →
        ¬ (h.entries index).contains e = true := by
  intro index hindex record hrecord e he
  rw [hexact index hindex]
  refine Index.not_contains_expected_of_fresh (fun hmem => ?_) index e he
  rw [hstored.keys] at hmem
  have hfresh := ha.fresh record hrecord
  rw [(OrderedMap.mem_keys_iff _ _).mp hmem] at hfresh
  cases hfresh

/-- Where no entry is one of a record with an inserted key, what was gained can be lost again, and the
contents are as before. -/
theorem Gains.place_eq_of_loses {records : List R} (hadmits : h.Admits b records)
    (hreads : ∀ record ∈ records, ∀ bytes, b.codec.encode record = .ok bytes →
      b.codec.decode bytes = .ok record)
    (hforeign : ∀ index ∈ b.indices, ∀ record ∈ records, ∀ e,
      (Index.expected [record] index).contains e = true → ¬ (h.entries index).contains e = true)
    (hg : Gains b records h h₁) (hl : Loses b (records.map Record.key) h₁ h') (s : Store) :
    s.place b.config h' = s.place b.config h := by
  refine Store.place_congr (OrderedMap.ext_get? fun key => ?_) fun index hindex => ?_
  · rw [hl.rows]
    split
    · next hkey =>
      obtain ⟨record, hrecord, rfl⟩ := List.mem_map.mp hkey
      have hfresh := hadmits.fresh record hrecord
      rw [OrderedMap.contains, Option.isSome_eq_false_iff, Option.isNone_iff_eq_none] at hfresh
      exact hfresh.symm
    · next hkey => exact hg.kept key hkey
  · refine OrderedMap.ext_contains fun e => ?_
    rw [hl.entries index hindex, hg.entries index hindex, OrderedMap.contains_union]
    constructor
    · rintro ⟨hold | hnew, hkept⟩
      · exact hold
      · obtain ⟨record, hrecord, value, hvalue, he⟩ := (Index.contains_expected _ _ _).mp hnew
        obtain ⟨bytes, hencode, hrow⟩ := hg.stored record hrecord
        refine absurd ?_ (hkept _ (List.mem_map_of_mem hrecord) bytes record hrow
          (hreads record hrecord bytes hencode))
        exact (Index.contains_expected _ _ _).mpr ⟨record, by simp, value, hvalue, he⟩
    · intro hold
      refine ⟨.inl hold, fun key hkey bytes record hrow hdecode hlost => ?_⟩
      obtain ⟨inserted, hinserted, rfl⟩ := List.mem_map.mp hkey
      obtain ⟨bytes', hencode, hrow'⟩ := hg.stored inserted hinserted
      rw [hrow] at hrow'
      cases hrow'
      rw [hreads inserted hinserted bytes hencode] at hdecode
      cases hdecode
      exact hforeign index hindex record hinserted e hlost hold

end Contents

/-! ## Calls -/

namespace Bucket

open Call

variable {b : Bucket R} {c c' : Context σ} {h : Contents} {keys : List Bytes}

/-- A deletion that succeeds has read all rows of the keys, and has taken them out. -/
theorem of_delete (hd : b.config.Disjoint) (hc : c.Quiet) (hs : c.store.Holds b.config h)
    (hrun : b.delete keys c = .ok () c') :
    (∀ key ∈ keys, h.Removable b key) ∧ ∃ h', Contents.Loses b keys h h' ∧ c'.Quiet ∧
      c'.store = c.store.place b.config h' ∧ c'.store.Holds b.config h' := by
  obtain ⟨h', hmade, hquiet, hstore⟩ := (b.delete_writes hc hs hd.primary keys).of_ok hrun
  obtain ⟨hremovable, hloses⟩ := Contents.loses_of_deleteAll hd.distinct (of_mapError_ok hmade)
  exact ⟨hremovable, h', hloses, hquiet, hstore, hstore ▸ Store.holds_place hd.primary _ _⟩

/-- A deletion succeeds if all rows of the keys are read. -/
theorem delete_ok_iff (hd : b.config.Disjoint) (hc : c.Quiet) (hs : c.store.Holds b.config h)
    (keys : List Bytes) :
    (∃ c', b.delete keys c = .ok () c') ↔ ∀ key ∈ keys, h.Removable b key := by
  constructor
  · rintro ⟨c', hrun⟩
    exact (of_delete hd hc hs hrun).1
  · intro hremovable
    obtain ⟨h', hmade⟩ := Contents.deleteAll_of_removable hd.distinct hremovable
    have hwrites := b.delete_writes hc hs hd.primary keys
    rw [hmade] at hwrites
    obtain ⟨c', hrun, -⟩ := hwrites
    exact ⟨c', hrun⟩

/-- Deletions that ask for the same of the keys that are there. -/
theorem delete_congr (hd : b.config.Disjoint) (hc : c.Quiet) (hs : c.store.Holds b.config h)
    {keys' : List Bytes} (hkeys : ∀ key, h.rows.contains key = true → (key ∈ keys ↔ key ∈ keys')) :
    ((∃ c', b.delete keys c = .ok () c') ↔ ∃ c', b.delete keys' c = .ok () c') ∧
      ∀ c₁ c₂, b.delete keys c = .ok () c₁ → b.delete keys' c = .ok () c₂ → c₁.store = c₂.store := by
  refine ⟨?_, fun c₁ c₂ hrun hrun' => ?_⟩
  · have hsame : ∀ {keys keys' : List Bytes},
        (∀ key, h.rows.contains key = true → (key ∈ keys ↔ key ∈ keys')) →
        (∀ key ∈ keys, h.Removable b key) → ∀ key ∈ keys', h.Removable b key := by
      intro keys keys' hkeys hremovable key hkey bytes hrow
      have hthere := (OrderedMap.contains_iff _ _).mpr ⟨bytes, hrow⟩
      exact hremovable key ((hkeys key hthere).mpr hkey) bytes hrow
    rw [delete_ok_iff hd hc hs, delete_ok_iff hd hc hs]
    exact ⟨hsame hkeys, hsame fun key hkey => (hkeys key hkey).symm⟩
  · obtain ⟨-, h₁, hloses, -, hstore, -⟩ := of_delete hd hc hs hrun
    obtain ⟨-, h₂, hloses', -, hstore', -⟩ := of_delete hd hc hs hrun'
    rw [hstore, hstore', hloses.place_eq hkeys hloses']

/-- Two deletions one after the other are one of all the keys. -/
theorem delete_append (hd : b.config.Disjoint) (hc : c.Quiet) (hs : c.store.Holds b.config h)
    (xs ys : List Bytes) (s : Store) :
    (∃ c', b.delete (xs ++ ys) c = .ok () c' ∧ c'.store = s) ↔
      ∃ c₁ c₂, b.delete xs c = .ok () c₁ ∧ b.delete ys c₁ = .ok () c₂ ∧ c₂.store = s := by
  -- Where both ways succeed they lose the same.
  have hstores : ∀ {c' c₁ c₂ : Context σ}, b.delete (xs ++ ys) c = .ok () c' →
      b.delete xs c = .ok () c₁ → b.delete ys c₁ = .ok () c₂ → c'.store = c₂.store := by
    intro c' c₁ c₂ hall hfirst hsecond
    obtain ⟨-, h', hloses, -, hstore, -⟩ := of_delete hd hc hs hall
    obtain ⟨-, h₁, hloses₁, hquiet, hstore₁, hs₁⟩ := of_delete hd hc hs hfirst
    obtain ⟨-, h₂, hloses₂, -, hstore₂, -⟩ := of_delete hd hquiet hs₁ hsecond
    rw [hstore, hstore₂, hstore₁, Store.place_place,
      hloses.place_eq (fun _ _ => Iff.rfl) (hloses₁.trans hloses₂)]
  constructor
  · rintro ⟨c', hall, rfl⟩
    obtain ⟨hremovable, -⟩ := of_delete hd hc hs hall
    obtain ⟨hxs, hys⟩ := List.forall_mem_append.mp hremovable
    obtain ⟨c₁, hfirst⟩ := (delete_ok_iff hd hc hs xs).mpr hxs
    obtain ⟨-, h₁, hloses₁, hquiet, -, hs₁⟩ := of_delete hd hc hs hfirst
    obtain ⟨c₂, hsecond⟩ := (delete_ok_iff hd hquiet hs₁ ys).mpr fun key hkey =>
      (hloses₁.removable_iff key).mpr (.inr (hys key hkey))
    exact ⟨c₁, c₂, hfirst, hsecond, (hstores hall hfirst hsecond).symm⟩
  · rintro ⟨c₁, c₂, hfirst, hsecond, rfl⟩
    obtain ⟨hxs, h₁, hloses₁, hquiet, -, hs₁⟩ := of_delete hd hc hs hfirst
    obtain ⟨hys, -⟩ := of_delete hd hquiet hs₁ hsecond
    obtain ⟨c', hall⟩ := (delete_ok_iff hd hc hs (xs ++ ys)).mpr <|
      List.forall_mem_append.mpr ⟨hxs, fun key hkey => by
        rcases (hloses₁.removable_iff key).mp (hys key hkey) with hx | hremovable
        · exact hxs key hx
        · exact hremovable⟩
    exact ⟨c', hall, hstores hall hfirst hsecond⟩

/-- The same deletion once more finds nothing to do. -/
theorem delete_again (hd : b.config.Disjoint) (hc : c.Quiet) (hs : c.store.Holds b.config h)
    (hrun : b.delete keys c = .ok () c') :
    ∃ c'', b.delete keys c' = .ok () c'' ∧ c''.store = c'.store := by
  obtain ⟨-, h', hloses, hquiet, -, hs'⟩ := of_delete hd hc hs hrun
  have hnone : ∀ key, h'.rows.contains key = true → (key ∈ keys ↔ key ∈ ([] : List Bytes)) := by
    intro key hthere
    obtain ⟨bytes, hrow⟩ := (OrderedMap.contains_iff _ _).mp hthere
    rw [hloses.rows] at hrow
    split at hrow
    · cases hrow
    · next hkey => simp [hkey]
  obtain ⟨hiff, hstores⟩ := delete_congr hd hquiet hs' hnone
  obtain ⟨c₀, hempty⟩ := (delete_ok_iff hd hquiet hs' []).mpr fun key hkey => by cases hkey
  obtain ⟨c'', hagain⟩ := hiff.mpr ⟨c₀, hempty⟩
  obtain ⟨-, h₀, hloses₀, -, hstore₀, -⟩ := of_delete hd hquiet hs' hempty
  refine ⟨c'', hagain, ?_⟩
  rw [hstores c'' c₀ hagain hempty, hstore₀, hloses₀.place_eq (fun _ _ => Iff.rfl) (.nil h'),
    hs'.place_eq]

/-- What has been inserted can be deleted again, and nothing is left of it, where the rows are read as
records with their keys and the tables of the indices hold what these call for. -/
theorem delete_inserted (hd : b.config.Disjoint) (hc : c.Quiet) (hs : c.store.Holds b.config h)
    {stored records : List R} (hstored : b.codec.Legible b.indices h.rows.toList stored)
    (hexact : ∀ index ∈ b.indices, h.entries index = Index.expected stored index)
    (hreads : ∀ record ∈ records, ∀ bytes, b.codec.encode record = .ok bytes →
      b.codec.decode bytes = .ok record)
    (hrun : b.insert records c = .ok () c') :
    ∃ c'', b.delete (records.map Record.key) c' = .ok () c'' ∧ c''.store = c.store := by
  obtain ⟨h₁, hadmits, hgains, hquiet, hstore₁, hs₁⟩ := of_insert hd hc hs hrun
  have hremovable : ∀ key ∈ records.map Record.key, h₁.Removable b key := by
    intro key hkey bytes hrow
    obtain ⟨record, hrecord, rfl⟩ := List.mem_map.mp hkey
    obtain ⟨bytes', hencode, hrow'⟩ := hgains.stored record hrecord
    rw [hrow] at hrow'
    cases hrow'
    exact ⟨record, hreads record hrecord bytes hencode, hadmits.fits record hrecord⟩
  have hforeign := hadmits.foreign hstored hexact
  obtain ⟨c'', hdelete⟩ := (delete_ok_iff hd hquiet hs₁ _).mpr hremovable
  obtain ⟨-, h₂, hloses, -, hstore₂, -⟩ := of_delete hd hquiet hs₁ hdelete
  refine ⟨c'', hdelete, ?_⟩
  rw [hstore₂, hstore₁, Store.place_place,
    hgains.place_eq_of_loses hadmits hreads hforeign hloses, hs.place_eq]

/-- **A deletion takes a set of keys**, whatever the tables hold. It succeeds just if the rows of the
keys can be removed, and then the tables have lost these and what their records call for. So deletions
that ask for the same of the stored keys end alike and leave the same store, two deletions are one of
all their keys, and a second one changes nothing. Where the tables are those of their records, a
deletion takes back an insertion. -/
theorem delete_exact (hvalid : b.config.validate = .ok ()) (hc : c.Quiet)
    (hs : c.store.Holds b.config h) :
    (∀ keys, ((∃ c', b.delete keys c = .ok () c') ↔ ∀ key ∈ keys, h.Removable b key) ∧
      ∀ c', b.delete keys c = .ok () c' →
        ∃ h', c'.store = c.store.place b.config h' ∧ Contents.Loses b keys h h') ∧
    (∀ keys keys', (∀ key, h.rows.contains key = true → (key ∈ keys ↔ key ∈ keys')) →
      ((∃ c', b.delete keys c = .ok () c') ↔ ∃ c', b.delete keys' c = .ok () c') ∧
      ∀ c₁ c₂, b.delete keys c = .ok () c₁ → b.delete keys' c = .ok () c₂ →
        c₁.store = c₂.store) ∧
    (∀ xs ys s, (∃ c', b.delete (xs ++ ys) c = .ok () c' ∧ c'.store = s) ↔
      ∃ c₁ c₂, b.delete xs c = .ok () c₁ ∧ b.delete ys c₁ = .ok () c₂ ∧ c₂.store = s) ∧
    (∀ keys c', b.delete keys c = .ok () c' →
      ∃ c'', b.delete keys c' = .ok () c'' ∧ c''.store = c'.store) ∧
    ∀ stored records c', b.codec.Legible b.indices h.rows.toList stored →
      (∀ index ∈ b.indices, h.entries index = Index.expected stored index) →
      (∀ record ∈ records, ∀ bytes, b.codec.encode record = .ok bytes →
        b.codec.decode bytes = .ok record) →
      b.insert records c = .ok () c' →
        ∃ c'', b.delete (records.map Record.key) c' = .ok () c'' ∧ c''.store = c.store := by
  have hd := b.config.disjoint_of_validate hvalid
  refine ⟨fun keys => ⟨delete_ok_iff hd hc hs keys, fun c' hrun => ?_⟩, ?_, ?_, ?_, ?_⟩
  · obtain ⟨-, h', hloses, -, hstore, -⟩ := of_delete hd hc hs hrun
    exact ⟨h', hstore, hloses⟩
  · intro keys keys' hkeys
    exact delete_congr hd hc hs hkeys
  · exact delete_append hd hc hs
  · intro keys c' hrun
    exact delete_again hd hc hs hrun
  · intro stored records c' hstored hentries hreads hrun
    exact delete_inserted hd hc hs hstored hentries hreads hrun

/-! ### Cards, one of which is in a wrong place and one unreadable -/

theorem delete_exact_cards :
    let b : Bucket Card := ⟨⟨"cards", ["suit"]⟩, .cards, ⟨none, [], [], 0⟩⟩
    let damaged : Contents := ⟨.ofList [([7], [1, 9]), ([8], [])], fun _ => .setOf [[129]]⟩
    let kept : List Card := [⟨[7], 1⟩]
    let sound : Contents := ⟨.ofList [([7], [1, 7])], Index.expected kept⟩
    let cards : List Card := [⟨[8], 1⟩, ⟨[9], 2⟩]
    let c : Context Unit := quiet (Store.empty.place b.config damaged) [] ()
    let c' : Context Unit := quiet (Store.empty.place b.config sound) [] ()
    b.config.validate = .ok () ∧ c.Quiet ∧ c.store.Holds b.config damaged ∧
      c'.Quiet ∧ c'.store.Holds b.config sound ∧
      (∃ c₁ c₂, b.delete [[7], [3]] c = .ok () c₁ ∧ b.delete [[4], [7], [7]] c = .ok () c₂ ∧
        c₁.store = c₂.store) ∧
      ∃ c₁ c₂, b.insert cards c' = .ok () c₁ ∧ b.delete [[8], [9]] c₁ = .ok () c₂ ∧
        c₂.store = c'.store := by
  intro b damaged kept sound cards c c'
  have hvalid : b.config.validate = .ok () := rfl
  have hc : c.Quiet := Context.quiet_quiet _ _ _
  have hc' : c'.Quiet := Context.quiet_quiet _ _ _
  have hs : c.store.Holds b.config damaged := Store.holds_place (by decide) _ _
  have hs' : c'.store.Holds b.config sound := Store.holds_place (by decide) _ _
  obtain ⟨hok, hcongr, -⟩ := Bucket.delete_exact hvalid hc hs
  have hremovable : ∀ key ∈ [[7], [3]], damaged.Removable b key := by
    rw [List.forall_mem_cons, List.forall_mem_singleton]
    refine ⟨fun bytes hrow => ?_, fun bytes hrow => ?_⟩
    · cases hrow
      exact ⟨⟨[9], 1⟩, rfl, by decide +kernel⟩
    · cases hrow
  have hkeys : ∀ key, damaged.rows.contains key = true →
      (key ∈ [[7], [3]] ↔ key ∈ [[4], [7], [7]]) := by
    intro key hthere
    have hmem : key ∈ [[7], [8]] := (OrderedMap.mem_keys_iff damaged.rows key).mpr hthere
    rcases List.mem_cons.mp hmem with rfl | hmem
    · decide
    · obtain rfl := List.mem_singleton.mp hmem
      decide
  obtain ⟨c₁, hfirst⟩ := (hok [[7], [3]]).1.mpr hremovable
  obtain ⟨hiff, hsame⟩ := hcongr _ _ hkeys
  obtain ⟨c₂, hsecond⟩ := hiff.mp ⟨c₁, hfirst⟩
  obtain ⟨⟨⟩, hinsert, -⟩ := ok_of_check (x := b.insert cards) (c := c') (fun _ => true)
    (by decide +kernel)
  have hlegible : b.codec.Legible b.indices sound.rows.toList kept :=
    ⟨rfl, rfl, by decide +kernel⟩
  have hback := (Bucket.delete_exact hvalid hc' hs').2.2.2.2 kept cards _ hlegible
    (fun _ _ => rfl) (fun card _ => Codec.cards_lawful card) hinsert
  obtain ⟨c₃, hdelete, hstore⟩ := hback
  exact ⟨hvalid, hc, hs, hc', hs', ⟨c₁, c₂, hfirst, hsecond, hsame c₁ c₂ hfirst hsecond⟩,
    _, c₃, hinsert, hdelete, hstore⟩

end Bucket

end IndexedStore
