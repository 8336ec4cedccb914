import IndexedStore.Proofs.Rebuilding
import IndexedStore.Proofs.RecordMap

set_option autoImplicit false

/-! # Contents of a map of records

The tables of a bucket hold the contents of a map of records (`Contents.Keeps`) if the rows are the
records under their keys and the entries of each active index are those that the records call for.
Every call that changes a bucket then goes as a change of the map goes (`Write.onMap?`): both
succeed, and the contents are again those of the map, or neither does (`Write.tracks`). That the
entries keep up is one fact about exchanging entries (`Index.expected_exchange`): inserting
exchanges none for some, deleting some for none, and updating some for others. -/

namespace IndexedStore

variable {R σ : Type} [Record R]

/-! ## Records that can be stored -/

namespace Codec

/-- The bytes of a record that has some. -/
def bytes (codec : Codec R) (record : R) : Bytes :=
  (codec.encode record).toOption.getD []

/-- Whether a record can be stored and filed in the indices. -/
def accepts (codec : Codec R) (indices : List String) (record : R) : Bool :=
  decide (Index.Fits indices record) && (codec.encode record).toBool

theorem accepts_iff (codec : Codec R) (indices : List String) (record : R) :
    codec.accepts indices record = true ↔
      Index.Fits indices record ∧ codec.encode record = .ok (codec.bytes record) := by
  rw [accepts, Bool.and_eq_true, decide_eq_true_eq, bytes]
  cases codec.encode record <;> simp [Except.toBool, Except.toOption]

/-- The records of a map are read back from their bytes. -/
def Recovers (codec : Codec R) (m : RecordMap R) : Prop :=
  ∀ r ∈ m.values, codec.decode (codec.bytes r) = .ok r

omit [Record R] in
theorem Recovers.subset {codec : Codec R} {m m' : RecordMap R} (h : codec.Recovers m)
    (hsub : ∀ r ∈ m'.values, r ∈ m.values) : codec.Recovers m' :=
  fun r hr => h r (hsub r hr)

end Codec

/-! ## Keeping a map -/

/-- The contents of tables are those of a map of records. -/
structure Contents.Keeps (h : Contents) (codec : Codec R) (indices : List String)
    (m : RecordMap R) : Prop where
  /-- The rows are the records under their keys. -/
  rows : h.rows = m.mapValues codec.bytes
  /-- The entries are those that the records call for. -/
  entries : ∀ index ∈ indices, h.entries index = Index.expected m.values index
  /-- The records are under their own keys. -/
  keyed : m.Keyed
  /-- No key is empty. -/
  nonempty : ∀ r ∈ m.values, Record.key r ≠ []
  /-- All records can be stored. -/
  accepted : ∀ r ∈ m.values, codec.accepts indices r = true

namespace Contents

variable {codec : Codec R} {indices : List String} {h : Contents} {m : RecordMap R}

namespace Keeps

theorem get?_rows (hk : h.Keeps codec indices m) (key : Bytes) :
    h.rows.get? key = (m.get? key).map codec.bytes := by
  rw [hk.rows, OrderedMap.get?_mapValues]

theorem contains_rows (hk : h.Keeps codec indices m) (key : Bytes) :
    h.rows.contains key = m.contains key := by
  rw [hk.rows, OrderedMap.contains_mapValues]

theorem fits (hk : h.Keeps codec indices m) {r : R} (hr : r ∈ m.values) : Index.Fits indices r :=
  ((codec.accepts_iff indices r).mp (hk.accepted r hr)).1

/-- What a lawful codec wrote is read back. -/
theorem recovers (hlawful : codec.Lawful) (hk : h.Keeps codec indices m) : codec.Recovers m :=
  fun r hr => hlawful r _ ((codec.accepts_iff indices r).mp (hk.accepted r hr)).2

theorem unique (hk : h.Keeps codec indices m) {r o : R} (hr : r ∈ m.values) (ho : o ∈ m.values)
    (hkey : Record.key r = Record.key o) : r = o := by
  rw [hk.keyed.mem_values_iff] at hr ho
  rw [hkey, ho] at hr
  exact (Option.some.inj hr).symm

end Keeps

/-! ## Going as a map goes -/

/-- What becomes of contents and what becomes of a map belong together: the contents are those of
the map, or there are neither. -/
def Tracks {ε : Type} (r : Except ε Contents) (codec : Codec R) (indices : List String)
    (o : Option (RecordMap R)) : Prop :=
  match r, o with
  | .ok h, some m => h.Keeps codec indices m
  | .error _, none => True
  | _, _ => False

namespace Tracks

variable {ε : Type} {r : Except ε Contents} {o : Option (RecordMap R)}

theorem bind (hr : Tracks r codec indices o) {f : Contents → Except ε Contents}
    {g : RecordMap R → Option (RecordMap R)}
    (hfg : ∀ h m, h.Keeps codec indices m → Tracks (f h) codec indices (g m)) :
    Tracks (r >>= f) codec indices (o >>= g) := by
  cases r with
  | error e =>
    cases o with
    | none => exact trivial
    | some m => exact hr.elim
  | ok h =>
    cases o with
    | none => exact hr.elim
    | some m => exact hfg h m hr

/-- Batches belong together if their members do. -/
theorem foldlM {α : Type} {f : Contents → α → Except ε Contents}
    {g : RecordMap R → α → Option (RecordMap R)}
    (hfg : ∀ h m a, h.Keeps codec indices m → Tracks (f h a) codec indices (g m a)) (l : List α)
    (hk : h.Keeps codec indices m) : Tracks (l.foldlM f h) codec indices (l.foldlM g m) := by
  induction l generalizing h m with
  | nil => exact hk
  | cons a rest ih =>
    rw [List.foldlM_cons, List.foldlM_cons]
    exact (hfg h m a hk).bind fun h' m' hk' => ih hk'

theorem mapError {ε' : Type} (hr : Tracks r codec indices o) (f : ε → ε') :
    Tracks (r.mapError f) codec indices o := by
  cases r <;> cases o <;> exact hr

end Tracks

end Contents

/-! ## Inserting -/

namespace Bucket

variable (b : Bucket R) {h : Contents} {m : RecordMap R}

theorem insertOne_keeps (hdistinct : b.indices.Nodup)
    (hk : h.Keeps b.codec b.indices m) {record : R} (hkey : Record.key record ≠ [])
    (hfresh : m.contains (Record.key record) = false)
    (haccepts : b.codec.accepts b.indices record = true) :
    Contents.Keeps
      ({ h with rows := h.rows.insert (Record.key record) (b.codec.bytes record) }.editEach
        (fun index t => t.union (Index.expected [record] index)) b.indices)
      b.codec b.indices (m.put record) := by
  have hvalues := RecordMap.mem_values_put hk.keyed record
  -- The key is new, so no record before has an entry in common with the new one.
  have hother : ∀ r ∈ m.values, Record.key r ≠ Record.key record := by
    intro r hr he
    rw [hk.keyed.mem_values_iff, he] at hr
    rw [OrderedMap.contains, hr] at hfresh
    cases hfresh
  refine ⟨?_, fun index hindex => ?_, hk.keyed.put record, ?_, ?_⟩
  · rw [Contents.rows_editEach, RecordMap.put, OrderedMap.mapValues_insert, hk.rows]
  · rw [Contents.entries_editEach _ hdistinct, if_pos hindex, hk.entries index hindex,
      ← OrderedMap.exchange_empty_left, ← Index.expected_nil (R := R) index]
    refine Index.expected_exchange (fun r _ o ho => by cases ho) (fun o ho => by cases ho)
      (fun r => ?_) index
    rw [hvalues, List.mem_singleton]
    constructor
    · rintro (he | ⟨hr, -⟩)
      · exact .inl he
      · exact .inr ⟨hr, fun o ho => by cases ho⟩
    · rintro (he | ⟨hr, -⟩)
      · exact .inl he
      · exact .inr ⟨hr, hother r hr⟩
  · intro r hr
    rcases (hvalues r).mp hr with rfl | ⟨hr, -⟩
    · exact hkey
    · exact hk.nonempty r hr
  · intro r hr
    rcases (hvalues r).mp hr with rfl | ⟨hr, -⟩
    · exact haccepts
    · exact hk.accepted r hr

theorem insertOne_tracks (hdistinct : b.indices.Nodup) (hk : h.Keeps b.codec b.indices m)
    (record : R) :
    Contents.Tracks (h.insertOne b record) b.codec b.indices
      (m.insertOne? (b.codec.accepts b.indices) record) := by
  rw [Contents.insertOne, RecordMap.insertOne?, hk.contains_rows]
  by_cases hempty : (Record.key record).isEmpty = true
  · rw [if_pos hempty, if_neg fun hcan => hcan.1 (List.isEmpty_iff.mp hempty)]
    exact trivial
  · have hkey : Record.key record ≠ [] := fun he => hempty (List.isEmpty_iff.mpr he)
    rw [if_neg hempty]
    by_cases htaken : m.contains (Record.key record) = true
    · rw [if_pos htaken, if_neg fun hcan => by simp [htaken] at hcan]
      exact trivial
    · rw [if_neg htaken]
      have hfresh : m.contains (Record.key record) = false := Bool.eq_false_iff.mpr htaken
      by_cases haccepts : b.codec.accepts b.indices record = true
      · obtain ⟨hfits, hencode⟩ := (b.codec.accepts_iff b.indices record).mp haccepts
        rw [if_pos ⟨hkey, hfresh, haccepts⟩, hencode]
        dsimp only
        rw [Contents.file_of_fits hfits]
        exact b.insertOne_keeps hdistinct hk hkey hfresh haccepts
      · rw [if_neg fun hcan => haccepts hcan.2.2]
        -- If it both had bytes and could be filed, the record would be accepted.
        cases hencode : b.codec.encode record with
        | error e => exact trivial
        | ok bytes =>
          cases hfile : Contents.file b.indices record
              { h with rows := h.rows.insert (Record.key record) bytes } with
          | error e =>
            dsimp only
            rw [hfile]
            exact trivial
          | ok h' =>
            refine absurd ((b.codec.accepts_iff b.indices record).mpr
              ⟨Contents.fits_of_file hfile, ?_⟩) haccepts
            rw [hencode, Codec.bytes, hencode]
            rfl

/-- **Inserting** goes as putting the records into the map goes. -/
theorem insertAll_tracks (hdistinct : b.indices.Nodup) (hk : h.Keeps b.codec b.indices m)
    (records : List R) :
    Contents.Tracks (h.insertAll b records) b.codec b.indices
      (m.insertAll? (b.codec.accepts b.indices) records) := by
  rw [← RecordMap.foldlM_insertOne?]
  exact .foldlM (fun _ _ record hk => b.insertOne_tracks hdistinct hk record) records hk

/-! ## Deleting -/

theorem deleteOne_tracks (hreads : b.codec.Recovers m) (hdistinct : b.indices.Nodup)
    (hk : h.Keeps b.codec b.indices m) (key : Bytes) :
    Contents.Tracks (h.deleteOne b key) b.codec b.indices (some (m.erase key)) := by
  have hvalues := RecordMap.mem_values_erase hk.keyed key
  rw [Contents.deleteOne, hk.get?_rows]
  cases hstored : m.get? key with
  | none =>
    -- Nothing is under the key, and nothing changes on either side.
    have hsame : m.erase key = m := by
      refine OrderedMap.ext_get? fun k => ?_
      rw [OrderedMap.get?_erase]
      split
      · next he => rw [he, hstored]
      · rfl
    rw [hsame]
    exact hk
  | some record =>
    -- What is decoded is the record of the map, so the entries taken out are all it had.
    have hrecord : record ∈ m.values := (OrderedMap.mem_values_iff m record).mpr ⟨key, hstored⟩
    have hkey : Record.key record = key := hk.keyed key record hstored
    rw [Option.map_some]
    dsimp only
    rw [hreads record hrecord]
    dsimp only
    rw [Contents.unfile_of_fits (hk.fits hrecord)]
    refine ⟨?_, fun index hindex => ?_, hk.keyed.erase key, ?_, ?_⟩
    · rw [Contents.rows_editEach, OrderedMap.mapValues_erase, hk.rows]
    · rw [Contents.entries_editEach _ hdistinct, if_pos hindex, hk.entries index hindex,
        ← OrderedMap.exchange_empty_right, ← Index.expected_nil (R := R) index]
      refine Index.expected_exchange (fun r hr o ho he => ?_) (fun o ho => ?_) (fun r => ?_) index
      · obtain rfl := List.mem_singleton.mp ho
        exact hk.unique hr hrecord he
      · obtain rfl := List.mem_singleton.mp ho
        exact hrecord
      · rw [hvalues, List.forall_mem_singleton, hkey]
        simp only [List.not_mem_nil, false_or, ne_eq]
    · exact fun r hr => hk.nonempty r ((hvalues r).mp hr).1
    · exact fun r hr => hk.accepted r ((hvalues r).mp hr).1

/-- **Deleting** goes as taking the keys out of the map goes. -/
theorem deleteAll_tracks (hreads : b.codec.Recovers m) (hdistinct : b.indices.Nodup)
    (hk : h.Keeps b.codec b.indices m) (keys : List Bytes) :
    Contents.Tracks (h.deleteAll b keys) b.codec b.indices (some (m.eraseAll keys)) := by
  induction keys generalizing h m with
  | nil => exact hk
  | cons key rest ih =>
    have hone := b.deleteOne_tracks hreads hdistinct hk key
    rw [Contents.deleteAll, List.foldlM_cons]
    cases hdelete : h.deleteOne b key with
    | error e =>
      rw [hdelete] at hone
      exact hone.elim
    | ok h' =>
      rw [hdelete] at hone
      -- What is left was there before, so it is read back.
      have hleft : b.codec.Recovers (m.erase key) := hreads.subset fun r hr =>
        ((RecordMap.mem_values_erase hk.keyed key r).mp hr).1
      exact ih hleft hone

/-! ## Updating -/

omit b in
/-- What is seen on the way is what was seen before and what comes first. -/
theorem unseen_cons {record : R} {seen : List Bytes} (hnew : Record.key record ∉ seen)
    (rest : List R) :
    (((record :: rest).map Record.key).Nodup ∧ ∀ r ∈ record :: rest, Record.key r ∉ seen) ↔
      (rest.map Record.key).Nodup ∧ ∀ r ∈ rest, Record.key r ∉ Record.key record :: seen := by
  rw [List.map_cons, List.nodup_cons, List.forall_mem_cons]
  simp only [List.mem_map, not_exists, not_and, List.mem_cons, not_or]
  constructor
  · rintro ⟨⟨hother, hrest⟩, -, hnone⟩
    exact ⟨hrest, fun r hr => ⟨hother r hr, hnone r hr⟩⟩
  · rintro ⟨hrest, hnone⟩
    exact ⟨⟨fun r hr => (hnone r hr).1, hrest⟩, hnew, fun r hr => (hnone r hr).2⟩

theorem fetchEach_toOption (hreads : b.codec.Recovers m) (hk : h.Keeps b.codec b.indices m)
    (seen : List Bytes) (records : List R) :
    (h.fetchEach b seen records).toOption
      = if (records.map Record.key).Nodup ∧ ∀ r ∈ records, Record.key r ∉ seen then
          records.mapM fun record => m.get? (Record.key record)
        else none := by
  induction records generalizing seen with
  | nil => simp [Contents.fetchEach, Except.toOption]
  | cons record rest ih =>
    rw [Contents.fetchEach]
    by_cases hseen : seen.contains (Record.key record) = true
    · have hnot : ¬ (((record :: rest).map Record.key).Nodup ∧
          ∀ r ∈ record :: rest, Record.key r ∉ seen) := fun hcan =>
        hcan.2 record List.mem_cons_self (List.contains_iff_mem.mp hseen)
      rw [if_pos hseen, if_neg hnot]
      rfl
    · have hunseen : Record.key record ∉ seen := fun hmem =>
        hseen (List.contains_iff_mem.mpr hmem)
      have hcond := unseen_cons hunseen rest
      rw [if_neg hseen, hk.get?_rows, List.mapM_cons]
      cases hstored : m.get? (Record.key record) with
      | none =>
        dsimp only [Option.map_none]
        split <;> rfl
      | some stored =>
        have hmem : stored ∈ m.values := (OrderedMap.mem_values_iff m stored).mpr ⟨_, hstored⟩
        dsimp only [Option.map_some]
        rw [hreads stored hmem]
        dsimp only
        have hrest := ih (Record.key record :: seen)
        by_cases hcan : (rest.map Record.key).Nodup ∧
            ∀ r ∈ rest, Record.key r ∉ Record.key record :: seen
        · rw [if_pos hcan] at hrest
          rw [if_pos (hcond.mpr hcan), ← hrest]
          cases h.fetchEach b (Record.key record :: seen) rest <;> rfl
        · rw [if_neg hcan] at hrest
          rw [if_neg fun hc => hcan (hcond.mp hc)]
          cases hfetch : h.fetchEach b (Record.key record :: seen) rest with
          | error e => rfl
          | ok fetched =>
            rw [hfetch] at hrest
            cases hrest

/-- **Fetching** goes as looking up the keys in the map goes. -/
theorem fetch_toOption (hreads : b.codec.Recovers m) (hk : h.Keeps b.codec b.indices m)
    (records : List R) : (h.fetch b records).toOption = m.fetch? records := by
  have hfetch := b.fetchEach_toOption hreads hk [] records
  rw [RecordMap.fetch?]
  simp only [List.not_mem_nil, not_false_eq_true, implies_true, and_true] at hfetch
  rw [← hfetch, Contents.fetch]
  cases hstored : h.fetchEach b [] records with
  | error e => rfl
  | ok stored =>
    have hmapM : m.fetch? records = some stored := by
      rw [RecordMap.fetch?, ← hfetch, hstored]
      rfl
    have hmem := (hk.keyed.keys_of_mapM (RecordMap.fetch?_eq_some_iff.mp hmapM).2).2
    have hshort := (Index.oversizedAmong?_eq_none_iff b.indices stored).mpr fun r hr =>
      hk.fits (hmem r hr)
    dsimp only
    rw [hshort]

theorem storeOne_eq {record : R} (haccepts : b.codec.accepts b.indices record = true)
    (h : Contents) : h.storeOne b record
      = .ok { h with rows := h.rows.insert (Record.key record) (b.codec.bytes record) } := by
  rw [Contents.storeOne, ((b.codec.accepts_iff b.indices record).mp haccepts).2]

/-- Storing records that can all be stored is putting them into the map. -/
theorem storeAll_of_accepted {records : List R}
    (haccepted : ∀ r ∈ records, b.codec.accepts b.indices r = true) {m : RecordMap R}
    (hrows : h.rows = m.mapValues b.codec.bytes) :
    records.foldlM (Contents.storeOne b) h
      = .ok { h with rows := (m.putAll records).mapValues b.codec.bytes } := by
  induction records generalizing h m with
  | nil => rw [RecordMap.putAll, List.foldl_nil, ← hrows]; rfl
  | cons record rest ih =>
    obtain ⟨hrecord, hrest⟩ := List.forall_mem_cons.mp haccepted
    rw [List.foldlM_cons, b.storeOne_eq hrecord]
    have hput : h.rows.insert (Record.key record) (b.codec.bytes record)
        = (m.put record).mapValues b.codec.bytes := by
      rw [RecordMap.put, OrderedMap.mapValues_insert, hrows]
    exact ih hrest hput

/-- Storing records fails if one of them has no bytes. -/
theorem encode_of_storeAll {records : List R} {h' : Contents}
    (hstore : records.foldlM (Contents.storeOne b) h = .ok h') :
    ∀ r ∈ records, b.codec.encode r = .ok (b.codec.bytes r) := by
  induction records generalizing h with
  | nil => exact fun r hr => by cases hr
  | cons record rest ih =>
    rw [List.foldlM_cons, Contents.storeOne] at hstore
    cases hencode : b.codec.encode record with
    | error e =>
      rw [hencode] at hstore
      cases hstore
    | ok bytes =>
      rw [hencode] at hstore
      have hbytes : b.codec.encode record = .ok (b.codec.bytes record) := by
        rw [Codec.bytes, hencode]
        rfl
      exact List.forall_mem_cons.mpr ⟨hbytes, ih hstore⟩

/-- The contents after records have been replaced are those of the map with the new ones. -/
theorem replace_keeps (hdistinct : b.indices.Nodup) (hk : h.Keeps b.codec b.indices m)
    {stored mutated : List R} (hstored : ∀ r ∈ stored, r ∈ m.values)
    (hkeys : (stored.map Record.key).Nodup)
    (hperm : (mutated.map Record.key).Perm (stored.map Record.key))
    (haccepted : ∀ r ∈ mutated, b.codec.accepts b.indices r = true) :
    Contents.Keeps
      { h.exchange b.indices stored mutated with
        rows := (m.putAll mutated).mapValues b.codec.bytes }
      b.codec b.indices (m.putAll mutated) := by
  have hvalues := RecordMap.mem_values_putAll hk.keyed (hperm.nodup_iff.mpr hkeys)
  -- New and old records have the same keys.
  have hsame : ∀ r : R, (∀ o ∈ mutated, Record.key r ≠ Record.key o) ↔
      ∀ o ∈ stored, Record.key r ≠ Record.key o := by
    intro r
    have hmem := hperm.mem_iff (a := Record.key r)
    simp only [List.mem_map] at hmem
    constructor
    · intro hall o ho he
      obtain ⟨o', ho', he'⟩ := hmem.mpr ⟨o, ho, he.symm⟩
      exact hall o' ho' he'.symm
    · intro hall o ho he
      obtain ⟨o', ho', he'⟩ := hmem.mp ⟨o, ho, he.symm⟩
      exact hall o' ho' he'.symm
  refine ⟨rfl, fun index hindex => ?_, hk.keyed.putAll mutated, fun r hr => ?_, fun r hr => ?_⟩
  · show (h.exchange b.indices stored mutated).entries index = _
    rw [Contents.exchange, Contents.entries_editEach _ hdistinct, if_pos hindex,
      hk.entries index hindex]
    refine Index.expected_exchange (fun r hr o ho => hk.unique hr (hstored o ho)) hstored
      (fun r => ?_) index
    rw [hvalues, hsame]
  · rcases (hvalues r).mp hr with hnew | ⟨hr, -⟩
    -- A new record has the key of an old one.
    · have hkey := hperm.mem_iff.mp (List.mem_map_of_mem hnew)
      obtain ⟨o, ho, he⟩ := List.mem_map.mp hkey
      rw [← he]
      exact hk.nonempty o (hstored o ho)
    · exact hk.nonempty r hr
  · rcases (hvalues r).mp hr with hnew | ⟨hr, -⟩
    · exact haccepted r hnew
    · exact hk.accepted r hr

theorem replace_tracks (hdistinct : b.indices.Nodup) (hk : h.Keeps b.codec b.indices m)
    {stored mutated : List R} (hlength : stored.length = mutated.length)
    (hstored : ∀ r ∈ stored, r ∈ m.values) (hkeys : (stored.map Record.key).Nodup) :
    Contents.Tracks (h.replace b stored mutated) b.codec b.indices
      (m.replace? (b.codec.accepts b.indices) stored mutated) := by
  have hdifference := firstDifference?_eq_none_iff hlength
  rw [Contents.replace, RecordMap.replace?]
  cases hfirst : firstDifference? (sortedKeys stored) (sortedKeys mutated) with
  | some keys =>
    rw [hfirst] at hdifference
    rw [if_neg fun hcan => by simpa using hdifference.mpr hcan.1]
    exact trivial
  | none =>
    have hperm := hdifference.mp hfirst
    have hshort := Index.oversizedAmong?_eq_none_iff b.indices mutated
    dsimp only
    cases hfault : Index.oversizedAmong? b.indices mutated with
    | some value =>
      -- A value that is too long is found before anything is stored.
      rw [hfault] at hshort
      have hnot : ¬ ∀ r ∈ mutated, b.codec.accepts b.indices r = true := fun hall => by
        simpa using hshort.mpr fun r hr => ((b.codec.accepts_iff b.indices r).mp (hall r hr)).1
      rw [if_neg fun hcan => hnot hcan.2]
      exact trivial
    | none =>
      by_cases haccepted : ∀ r ∈ mutated, b.codec.accepts b.indices r = true
      · have hrows : (h.exchange b.indices stored mutated).rows = m.mapValues b.codec.bytes := by
          rw [Contents.exchange, Contents.rows_editEach, hk.rows]
        rw [if_pos ⟨hperm, haccepted⟩]
        dsimp only
        rw [b.storeAll_of_accepted haccepted hrows]
        exact b.replace_keeps hdistinct hk hstored hkeys hperm haccepted
      · rw [if_neg fun hcan => haccepted hcan.2]
        dsimp only
        cases hstore : mutated.foldlM (Contents.storeOne b)
            (h.exchange b.indices stored mutated) with
        | error e => exact trivial
        | ok h' =>
          -- All values are short, so a record that is not accepted has no bytes to be stored.
          refine absurd (fun r hr => ?_) haccepted
          exact (b.codec.accepts_iff b.indices r).mpr
            ⟨hshort.mp hfault r hr, b.encode_of_storeAll hstore r hr⟩

/-- **Updating** goes as replacing records of the map by what the mutator makes of them goes. -/
theorem update_tracks (hreads : b.codec.Recovers m) (hdistinct : b.indices.Nodup)
    (hk : h.Keeps b.codec b.indices m) (records : List R) (mutator : Mutator σ R)
    (c : Context σ) :
    Contents.Tracks (h.update b records mutator c) b.codec b.indices
      (m.update? (b.codec.accepts b.indices) records mutator c) := by
  have hfetch := b.fetch_toOption hreads hk records
  rw [Contents.update, RecordMap.update?, ← hfetch]
  cases hstored : h.fetch b records with
  | error e => exact trivial
  | ok stored =>
    rw [hstored] at hfetch
    obtain ⟨hdistinctKeys, hmapM⟩ := RecordMap.fetch?_eq_some_iff.mp hfetch.symm
    obtain ⟨hkeys, hmem⟩ := hk.keyed.keys_of_mapM hmapM
    cases hmutated : mutator stored.length (.whole stored) c with
    | error stop c' =>
      simp only [Except.toOption, hmutated]
      trivial
    | ok mutated c' =>
      simp only [Except.toOption, hmutated]
      exact (b.replace_tracks hdistinct hk mutated.property.symm hmem
        (hkeys ▸ hdistinctKeys)).mapError _

end Bucket

/-! ## Rebuilding -/

namespace Contents

variable {codec : Codec R} {indices : List String} {m : RecordMap R}

omit [Record R] in
theorem decode_rows (hreads : codec.Recovers m) :
    (m.mapValues codec.bytes).toList.map (fun row => codec.decode row.2) = m.values.map .ok := by
  rw [OrderedMap.mapValues, OrderedMap.values, List.map_map, List.map_map]
  exact List.map_congr_left fun row hrow => hreads row.2 (List.mem_map_of_mem hrow)

/-- The rows of a keyed map are legible if its records are read back and fit. -/
theorem legible_of_keyed (hkeyed : m.Keyed) (hreads : codec.Recovers m)
    (hfits : ∀ r ∈ m.values, Index.Fits indices r) :
    codec.Legible indices (m.mapValues codec.bytes).toList m.values := by
  refine ⟨decode_rows hreads, ?_, hfits⟩
  rw [hkeyed.keys_values, OrderedMap.keys, OrderedMap.mapValues, List.map_map]
  rfl

/-- **Reindexing** leaves what is kept as it is. -/
theorem Keeps.rebuild (hreads : codec.Recovers m) (hdistinct : indices.Nodup) {h : Contents}
    (hk : h.Keeps codec indices m) :
    ∃ h', rebuild codec indices h.rows = .ok h' ∧ h'.Keeps codec indices m := by
  have hlegible := legible_of_keyed hk.keyed hreads fun r hr => hk.fits hr
  obtain ⟨h', hrebuild, hrows, hentries⟩ := rebuild_of_legible hdistinct hlegible
  refine ⟨h', by rw [hk.rows]; exact hrebuild, hrows, hentries, hk.keyed, hk.nonempty, hk.accepted⟩

end Contents

/-! ## All calls that change a bucket -/

/-- The map after a call that changes a bucket, in a context, if the map admits the call. -/
def Write.onMap? (accepts : R → Bool) (c : Context σ) (m : RecordMap R) :
    Write σ R → Option (RecordMap R)
  | insert records => m.insertAll? accepts records
  | update records mutator => m.update? accepts records mutator c
  | delete keys => some (m.eraseAll keys)
  | reindex => some m

/-- **A call that changes a bucket** goes as the change of the map goes. -/
theorem Write.tracks {b : Bucket R} {m : RecordMap R} (hreads : b.codec.Recovers m)
    (hdistinct : b.indices.Nodup) {h : Contents} (hk : h.Keeps b.codec b.indices m) (c : Context σ)
    (w : Write σ R) :
    Contents.Tracks (w.contents b c h) b.codec b.indices
      (w.onMap? (b.codec.accepts b.indices) c m) := by
  cases w with
  | insert records => exact (b.insertAll_tracks hdistinct hk records).mapError _
  | update records mutator => exact b.update_tracks hreads hdistinct hk records mutator c
  | delete keys => exact (b.deleteAll_tracks hreads hdistinct hk keys).mapError _
  | reindex =>
    obtain ⟨h', hrebuild, hk'⟩ := hk.rebuild hreads hdistinct
    rw [contents, hrebuild]
    exact hk'

end IndexedStore
