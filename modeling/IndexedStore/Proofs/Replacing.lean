import IndexedStore.Proofs.Reopening
import IndexedStore.Record.Card

set_option autoImplicit false

/-! # Updating is deleting and inserting

An update works on a whole batch: it takes the entries that its records called for before and do not
call for after, and puts in those the other way round. Deleting and inserting work record by record.
That both come to the same is a fact about maps of records (`RecordMap.Keyed.putAll_eraseAll`): a
map is said by its records, and whether those with the old keys are put over or taken out before
makes no difference. The tables follow the map, so the stores are the same, in whatever order the
records are inserted. -/

namespace IndexedStore

variable {R σ : Type} [Record R]

/-! ## Maps -/

namespace RecordMap

variable {m : RecordMap R}

omit [Record R] in
theorem get?_eraseAll (m : RecordMap R) (keys : List Bytes) (k : Bytes) :
    (m.eraseAll keys).get? k = if k ∈ keys then none else m.get? k := by
  induction keys generalizing m with
  | nil => rfl
  | cons key rest ih =>
    show (RecordMap.eraseAll (m.erase key) rest).get? k = _
    rw [ih, OrderedMap.get?_erase]
    by_cases hrest : k ∈ rest <;> by_cases hkey : k = key <;> simp [hrest, hkey]

theorem Keyed.eraseAll (hm : m.Keyed) (keys : List Bytes) : (m.eraseAll keys).Keyed := by
  intro k r hr
  rw [get?_eraseAll] at hr
  split at hr
  · cases hr
  · exact hm k r hr

/-- **The records after keys are taken out** are those with other keys. -/
theorem mem_values_eraseAll (hm : m.Keyed) (keys : List Bytes) (r : R) :
    r ∈ (m.eraseAll keys).values ↔ r ∈ m.values ∧ Record.key r ∉ keys := by
  rw [(hm.eraseAll keys).mem_values_iff, hm.mem_values_iff, get?_eraseAll]
  by_cases hkey : Record.key r ∈ keys <;> simp [hkey]

/-- **Putting records over those with their keys** is taking these out first, and the order of the
records does not matter. -/
theorem Keyed.putAll_eraseAll (hm : m.Keyed) {records order : List R} {keys : List Bytes}
    (hkeys : (records.map Record.key).Perm keys) (hdistinct : keys.Nodup)
    (horder : order.Perm records) : (m.eraseAll keys).putAll order = m.putAll records := by
  have hrecords : (records.map Record.key).Nodup := hkeys.nodup_iff.mpr hdistinct
  have hordered : (order.map Record.key).Nodup := (horder.map Record.key).nodup_iff.mpr hrecords
  have hmem : ∀ r : R, Record.key r ∉ keys ↔ ∀ o ∈ records, Record.key r ≠ Record.key o := by
    intro r
    rw [← hkeys.mem_iff]
    simp only [List.mem_map, not_exists, not_and, ne_eq, eq_comm]
  refine Keyed.ext ((hm.eraseAll keys).putAll order) (hm.putAll records) fun r => ?_
  rw [mem_values_putAll (hm.eraseAll keys) hordered, mem_values_putAll hm hrecords,
    mem_values_eraseAll hm, hmem]
  simp only [horder.mem_iff, and_assoc, and_self]

/-- Records that are stored are put over themselves. -/
theorem Keyed.putAll_stored (hm : m.Keyed) {records : List R}
    (hdistinct : (records.map Record.key).Nodup) (hstored : ∀ r ∈ records, r ∈ m.values) :
    m.putAll records = m := by
  refine Keyed.ext (hm.putAll records) hm fun r => ?_
  rw [mem_values_putAll hm hdistinct]
  constructor
  · rintro (hr | ⟨hr, -⟩)
    · exact hstored r hr
    · exact hr
  · intro hr
    by_cases hany : ∃ o ∈ records, Record.key r = Record.key o
    -- A record with the key of a stored one is that record.
    · obtain ⟨o, ho, he⟩ := hany
      have hget := (hm.mem_values_iff o).mp (hstored o ho)
      rw [← he, (hm.mem_values_iff r).mp hr] at hget
      exact .inl (Option.some.inj hget ▸ ho)
    · exact .inr ⟨hr, fun o ho he => hany ⟨o, ho, he⟩⟩

/-- Records that are fetched are the answers for their keys. -/
theorem map_get?_of_mapM {records stored : List R}
    (h : records.mapM (fun record => m.get? (Record.key record)) = some stored) :
    (records.map Record.key).map m.get? = stored.map some := by
  induction records generalizing stored with
  | nil =>
    cases h
    rfl
  | cons record rest ih =>
    rw [List.mapM_cons] at h
    obtain ⟨first, hfirst, h⟩ := Option.bind_eq_some_iff.mp h
    obtain ⟨others, hothers, h⟩ := Option.bind_eq_some_iff.mp h
    cases h
    rw [List.map_cons, List.map_cons, List.map_cons, hfirst, ih hothers]

/-- An update that the map admits has fetched records, and puts in their place what the mutator made
of them. -/
theorem of_update? {accepts : R → Bool} {records : List R} {mutator : Mutator σ R} {c : Context σ}
    {m' : RecordMap R} (h : m.update? accepts records mutator c = some m') :
    ∃ stored mutated c₁, m.fetch? records = some stored ∧
      mutator stored.length (.whole stored) c = .ok mutated c₁ ∧
      (mutated.val.map Record.key).Perm (stored.map Record.key) ∧
      (∀ r ∈ mutated.val, accepts r = true) ∧ m' = m.putAll mutated.val := by
  rw [update?] at h
  cases hfetch : m.fetch? records with
  | none =>
    rw [hfetch] at h
    cases h
  | some stored =>
    rw [hfetch] at h
    dsimp only at h
    cases hmutated : mutator stored.length (.whole stored) c with
    | error stop c₁ =>
      rw [hmutated] at h
      cases h
    | ok mutated c₁ =>
      rw [hmutated] at h
      dsimp only [replace?] at h
      split at h
      · next hcan =>
        cases h
        exact ⟨stored, mutated, c₁, rfl, hmutated, hcan.1, hcan.2, rfl⟩
      · cases h

end RecordMap

/-! ## Buckets -/

namespace Bucket

variable {b : Bucket R} {c c' : Context σ} {m : RecordMap R}

/-- A call that succeeds has given the tables what the map after it calls for. -/
theorem Shows.of_write (hreads : b.codec.Recovers m) (hb : b.Shows c m) {w : Write σ R}
    (hw : w.Mutators Mutator.Tame) (h : w.call b c = .ok () c') :
    ∃ m', w.onMap? (b.codec.accepts b.indices) c m = some m' ∧ b.Shows c' m' ∧
      c'.store = c.store.place b.config (.of b.codec m') := by
  have hstep := hb.step hreads hw
  cases hmap : w.onMap? (b.codec.accepts b.indices) c m with
  | none =>
    rw [hmap] at hstep
    obtain ⟨stop, c₁, hstop, -⟩ := hstep
    rw [h] at hstop
    cases hstop
  | some m' =>
    rw [hmap] at hstep
    obtain ⟨c₁, h', hrun, hshows, hk, hstore⟩ := hstep
    rw [h] at hrun
    cases hrun
    exact ⟨m', rfl, hshows, hstore.trans (hk.place_eq c.store rfl)⟩

/-- A call that the map admits succeeds. -/
theorem Shows.write_ok (hreads : b.codec.Recovers m) (hb : b.Shows c m) {w : Write σ R}
    (hw : w.Mutators Mutator.Tame) {m' : RecordMap R}
    (h : w.onMap? (b.codec.accepts b.indices) c m = some m') :
    ∃ c', w.call b c = .ok () c' ∧ b.Shows c' m' ∧
      c'.store = c.store.place b.config (.of b.codec m') := by
  have hstep := hb.step hreads hw
  rw [h] at hstep
  obtain ⟨c₁, h', hrun, hshows, hk, hstore⟩ := hstep
  exact ⟨c₁, hrun, hshows, hstore.trans (hk.place_eq c.store rfl)⟩

/-- The tables of a bucket are those that its map calls for. -/
theorem Shows.place_eq (hb : b.Shows c m) : c.store.place b.config (.of b.codec m) = c.store := by
  obtain ⟨-, -, h, hs, hk⟩ := hb
  rw [← hk.place_eq c.store rfl, hs.place_eq]

/-- Records of other keys than those that were taken out come in, in any order. -/
theorem Shows.delete_insert (hreads : b.codec.Recovers m) (hb : b.Shows c m) {keys : List Bytes}
    {order : List R} (hdistinct : (order.map Record.key).Nodup)
    (hkeys : ∀ r ∈ order, Record.key r ∈ keys) (hnonempty : ∀ r ∈ order, Record.key r ≠ [])
    (haccepted : ∀ r ∈ order, b.codec.accepts b.indices r = true) :
    ∃ c₂ c₃, b.delete keys c = .ok () c₂ ∧ b.insert order c₂ = .ok () c₃ ∧
      c₃.store = c.store.place b.config (.of b.codec ((m.eraseAll keys).putAll order)) := by
  obtain ⟨c₂, hdelete, hb₂, hstore₂⟩ := hb.write_ok hreads (w := .delete keys) trivial rfl
  have hcan : (∀ r ∈ order, Record.key r ≠ [] ∧
      (m.eraseAll keys).contains (Record.key r) = false ∧ b.codec.accepts b.indices r = true) ∧
        (order.map Record.key).Nodup := by
    refine ⟨fun r hr => ⟨hnonempty r hr, ?_, haccepted r hr⟩, hdistinct⟩
    rw [OrderedMap.contains, RecordMap.get?_eraseAll, if_pos (hkeys r hr)]
    rfl
  have hmap : (Write.insert order : Write σ R).onMap? (b.codec.accepts b.indices) c₂
      (m.eraseAll keys) = some ((m.eraseAll keys).putAll order) := if_pos hcan
  obtain ⟨h, -, hk⟩ := hb.keeps
  have hleft : b.codec.Recovers (m.eraseAll keys) := hreads.subset fun r hr =>
    ((RecordMap.mem_values_eraseAll hk.keyed keys r).mp hr).1
  obtain ⟨c₃, hinsert, -, hstore₃⟩ := hb₂.write_ok hleft (w := .insert order) trivial hmap
  rw [hstore₂, Store.place_place] at hstore₃
  exact ⟨c₂, c₃, hdelete, hinsert, hstore₃⟩

/-- **An update is deleting its keys and inserting what the mutator made of the records**, in any
order. In particular it leaves the store as it is if the mutator makes no more than another order of
them. Of the codec no more is asked than that the records of the bucket are read back. -/
theorem update_replaces (hreads : b.codec.Recovers m) (hb : b.Shows c m) {records : List R}
    {mutator : Mutator σ R} (hmutator : mutator.Tame)
    (h : b.update records mutator c = .ok () c') :
    ∃ stored mutated c₁, b.read (records.map Record.key) c = .ok (stored.map some) c ∧
      mutator stored.length (.whole stored) c = .ok mutated c₁ ∧
      (∀ order, order.Perm mutated.val → ∃ c₂ c₃,
        b.delete (records.map Record.key) c = .ok () c₂ ∧ b.insert order c₂ = .ok () c₃ ∧
          c₃.store = c'.store) ∧
      (mutated.val.Perm stored → c'.store = c.store) := by
  obtain ⟨m', hmap, -, hstore⟩ := hb.of_write hreads (w := .update records mutator) hmutator h
  obtain ⟨stored, mutated, c₁, hfetch, hmutated, hperm, haccepted, rfl⟩ :=
    RecordMap.of_update? hmap
  obtain ⟨hdistinct, hmapM⟩ := RecordMap.fetch?_eq_some_iff.mp hfetch
  obtain ⟨hh, hs, hk⟩ := hb.keeps
  obtain ⟨hkeys, hstored⟩ := hk.keyed.keys_of_mapM hmapM
  refine ⟨stored, mutated, c₁, ?_, hmutated, fun order horder => ?_, fun hsame => ?_⟩
  · rw [b.read_ok hb.quiet hreads hs hk, RecordMap.map_get?_of_mapM hmapM]
  · -- The keys of the inserted records are those that were deleted, so they are free.
    have hordered : (order.map Record.key).Perm (records.map Record.key) :=
      hkeys ▸ (horder.map Record.key).trans hperm
    have hnonempty : ∀ r ∈ order, Record.key r ≠ [] := by
      intro r hr
      have hmem := ((horder.map Record.key).trans hperm).mem_iff.mp (List.mem_map_of_mem hr)
      obtain ⟨o, ho, he⟩ := List.mem_map.mp hmem
      exact he ▸ hk.nonempty o (hstored o ho)
    obtain ⟨c₂, c₃, hdelete, hinsert, hstore₃⟩ := hb.delete_insert hreads
      (hordered.nodup_iff.mpr hdistinct)
      (fun r hr => hordered.mem_iff.mp (List.mem_map_of_mem hr)) hnonempty
      fun r hr => haccepted r (horder.mem_iff.mp hr)
    refine ⟨c₂, c₃, hdelete, hinsert, ?_⟩
    rw [hstore₃, hstore, hk.keyed.putAll_eraseAll (hkeys ▸ hperm) hdistinct horder]
  · have hunchanged : m.putAll mutated.val = m :=
      hk.keyed.putAll_stored (hperm.nodup_iff.mpr (hkeys ▸ hdistinct))
        fun r hr => hstored r (hsame.mem_iff.mp hr)
    rw [hstore, hunchanged, hb.place_eq]

end Bucket

/-! ### Cards that change their suit -/

/-- A mutator that gives all cards one suit and reverses their order. -/
def Mutator.recoloring (suit : UInt8) : Mutator σ Card := fun _ cards =>
  pure ⟨(cards.val.map fun card => { card with suit }).reverse, by
    rw [List.length_reverse, List.length_map, cards.property]⟩

theorem Mutator.recoloring_tame (suit : UInt8) : (recoloring suit : Mutator σ Card).Tame :=
  fun _ _ _ hc => ⟨hc, rfl⟩

theorem Bucket.update_replaces_cards :
    let cards : List Card := [⟨[7], 0⟩, ⟨[8], 1⟩]
    ∃ (b : Bucket Card) (c c' : Context Unit) (m : RecordMap Card),
      b.codec.Recovers m ∧ b.Shows c m ∧ (Mutator.recoloring 3 : Mutator Unit Card).Tame ∧
      b.update cards (.recoloring 3) c = .ok () c' ∧
      ∀ order : List Card, order.Perm [⟨[8], 3⟩, ⟨[7], 3⟩] → ∃ c₂ c₃,
        b.delete [[7], [8]] c = .ok () c₂ ∧ b.insert order c₂ = .ok () c₃ ∧
          c₃.store = c'.store := by
  intro cards
  have hvalid : (⟨"cards", ["suit"]⟩ : BucketConfig).validate = .ok () := rfl
  obtain ⟨b, c₀, -, hconfig, hcodec, hshows, -⟩ := Call.openBucket_empty hvalid .cards
    (Context.quiet_quiet .empty [] ()) rfl
  have hlawful : b.codec.Lawful := hcodec ▸ Codec.cards_lawful
  let m : RecordMap Card := .ofList [([7], ⟨[7], 0⟩), ([8], ⟨[8], 1⟩)]
  have hinsert : (Write.insert cards : Write Unit Card).onMap? (b.codec.accepts b.indices) c₀
      .empty = some m := by
    rw [Bucket.indices, hconfig, hcodec, Write.onMap?]
    decide +kernel
  obtain ⟨c, -, hb, -⟩ :=
    hshows.write_ok (hshows.recovers hlawful) (w := .insert cards) trivial hinsert
  have hreads : b.codec.Recovers m := hb.recovers hlawful
  let m' : RecordMap Card := .ofList [([7], ⟨[7], 3⟩), ([8], ⟨[8], 3⟩)]
  have hupdate : (Write.update cards (.recoloring 3) : Write Unit Card).onMap?
      (b.codec.accepts b.indices) c m = some m' := by
    have hfetch : m.fetch? cards = some cards := by decide +kernel
    rw [Bucket.indices, hconfig, hcodec, Write.onMap?, RecordMap.update?, hfetch]
    show m.replace? (Codec.cards.accepts ["suit"]) cards [⟨[8], 3⟩, ⟨[7], 3⟩] = some m'
    decide +kernel
  have htame : (Mutator.recoloring 3 : Mutator Unit Card).Tame := Mutator.recoloring_tame 3
  obtain ⟨c', hrun, -⟩ := hb.write_ok hreads (w := .update cards (.recoloring 3)) htame hupdate
  obtain ⟨stored, mutated, c₁, hread, hmutated, horder, -⟩ :=
    Bucket.update_replaces hreads hb htame hrun
  -- What was read are the cards, so what was made of them is known.
  obtain ⟨h, hs, hk⟩ := hb.keeps
  rw [b.read_ok hb.quiet hreads hs hk] at hread
  have hanswers : cards.map some = stored.map some := by
    have hget : (cards.map Record.key).map m.get? = cards.map some := by decide +kernel
    rw [← hget]
    injection hread
  obtain rfl : cards = stored := (List.map_inj_right fun _ _ => Option.some.inj).mp hanswers
  cases hmutated
  exact ⟨b, c, c', m, hreads, hb, htame, hrun, horder⟩

end IndexedStore
