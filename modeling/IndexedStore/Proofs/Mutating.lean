import IndexedStore.Proofs.Keeping
import IndexedStore.Proofs.Opening
import IndexedStore.Record.Card

set_option autoImplicit false

/-! # How an update ends

An update asks for the stored copies of its records one after the other. A key that has been asked for
is refused before it is looked up, and the first record without a copy decides how the update ends
(`Contents.copyOf`, `Contents.Fetched`). The copies are all that the mutator is handed, so of the
records no more than their keys matters.

What comes back from the mutator is settled in turn (`Bucket.Settles`): the keys have to be the old
ones up to their order, which is seen from the sorted keys; all values have to fit and all records to
be encoded; then the tables change (`Contents.Replaced`). That the mutator runs once, or not at all, is
said by one that takes notes (`Mutator.noting`). -/

namespace IndexedStore

variable {R σ : Type} [Record R]

namespace Contents

/-! ## The copies -/

/-- The stored copy of a record that is asked for after others. -/
def copyOf (b : Bucket R) (h : Contents) (before : List R) (record : R) : Except BucketError R :=
  if (before.map Record.key).contains (Record.key record) then
    .error (.duplicateKey (Record.key record))
  else
    match h.rows.get? (Record.key record) with
    | none => .error (.unknownKey (Record.key record))
    | some bytes =>
      match b.codec.decode bytes with
      | .error e => .error (.codec e)
      | .ok copy => .ok copy

/-- The stored copies of records with different keys, in the order of the records. -/
structure Fetched (b : Bucket R) (h : Contents) (records stored : List R) : Prop where
  distinct : (records.map Record.key).Nodup
  copies : records.map (fun record => (h.rows.get? (Record.key record)).map b.codec.decode)
    = stored.map fun copy => some (.ok copy)

variable {b : Bucket R} {h h' : Contents} {before records stored : List R} {record copy : R}

theorem copyOf_eq_ok_iff : h.copyOf b before record = .ok copy ↔
    Record.key record ∉ before.map Record.key ∧
      (h.rows.get? (Record.key record)).map b.codec.decode = some (.ok copy) := by
  rw [copyOf]
  simp only [List.contains_iff_mem]
  split
  · next hmem => simp [hmem]
  · next hnew =>
    cases h.rows.get? (Record.key record) with
    | none => simp
    | some bytes =>
      dsimp only [Option.map_some]
      cases b.codec.decode bytes <;> simp [hnew]

theorem Fetched.nil (b : Bucket R) (h : Contents) : Fetched b h [] [] :=
  ⟨List.nodup_nil, rfl⟩

/-- One more record. -/
theorem Fetched.snoc (hf : Fetched b h before stored) (hcopy : h.copyOf b before record = .ok copy) :
    Fetched b h (before ++ [record]) (stored ++ [copy]) := by
  obtain ⟨hnew, hrow⟩ := copyOf_eq_ok_iff.mp hcopy
  constructor
  · rw [List.map_append, List.map_singleton, List.nodup_append]
    refine ⟨hf.distinct, List.pairwise_singleton _ _, ?_⟩
    rintro k hk k' hk' rfl
    exact hnew (List.mem_singleton.mp hk' ▸ hk)
  · rw [List.map_append, List.map_append, hf.copies, List.map_singleton, List.map_singleton, hrow]

/-- Among records that have copies, each has one after those before it. -/
theorem Fetched.exists_copy {after : List R} (hf : Fetched b h (before ++ record :: after) stored) :
    ∃ copy, h.copyOf b before record = .ok copy := by
  have hdistinct := hf.distinct
  rw [List.map_append, List.map_cons, List.nodup_append] at hdistinct
  have hnew : Record.key record ∉ before.map Record.key := fun hmem =>
    hdistinct.2.2 _ hmem _ List.mem_cons_self rfl
  have hmem : (h.rows.get? (Record.key record)).map b.codec.decode
      ∈ stored.map fun copy => some (Except.ok copy) := by
    rw [← hf.copies]
    exact List.mem_map.mpr ⟨record, by simp, rfl⟩
  obtain ⟨copy, -, hcopy⟩ := List.mem_map.mp hmem
  exact ⟨copy, copyOf_eq_ok_iff.mpr ⟨hnew, hcopy.symm⟩⟩

theorem Fetched.eq {stored' : List R} (hf : Fetched b h records stored)
    (hf' : Fetched b h records stored') : stored = stored' := by
  have hmap := hf.copies.symm.trans hf'.copies
  exact (List.map_inj_right fun _ _ he => Except.ok.inj (Option.some.inj he)).mp hmap

theorem fetchEach_cons {seen : List Bytes}
    (hseen : ∀ k, seen.contains k = true ↔ k ∈ before.map Record.key) (record : R) (rest : List R) :
    h.fetchEach b seen (record :: rest) =
      match h.copyOf b before record with
      | .error e => .error e
      | .ok copy => (h.fetchEach b (Record.key record :: seen) rest).map (copy :: ·) := by
  rw [fetchEach, copyOf]
  simp only [hseen, List.contains_iff_mem]
  split
  · rfl
  · cases h.rows.get? (Record.key record) with
    | none => rfl
    | some bytes =>
      dsimp only
      cases b.codec.decode bytes <;> rfl

/-- After some of a batch, its rest has copies, or a first record that has none. -/
theorem Fetched.fetchEach_rest (hf : Fetched b h before stored) {seen : List Bytes}
    (hseen : ∀ k, seen.contains k = true ↔ k ∈ before.map Record.key) (rest : List R) :
    match h.fetchEach b seen rest with
    | .ok more => Fetched b h (before ++ rest) (stored ++ more)
    | .error e => ∃ earlier record after stored, before ++ rest = earlier ++ record :: after ∧
        Fetched b h earlier stored ∧ h.copyOf b earlier record = .error e := by
  induction rest generalizing before stored seen with
  | nil =>
    show Fetched b h (before ++ []) (stored ++ [])
    rw [List.append_nil, List.append_nil]
    exact hf
  | cons record rest ih =>
    rw [fetchEach_cons hseen]
    cases hcopy : h.copyOf b before record with
    | error e => exact ⟨before, record, rest, stored, rfl, hf, hcopy⟩
    | ok copy =>
      have hseen' : ∀ k, (Record.key record :: seen).contains k = true ↔
          k ∈ (before ++ [record]).map Record.key := by
        intro k
        have hk := hseen k
        simp only [List.contains_iff_mem] at hk ⊢
        simp [hk, or_comm]
      have hrest := ih (hf.snoc hcopy) hseen'
      rw [← List.append_cons] at hrest
      dsimp only
      cases hmore : h.fetchEach b (Record.key record :: seen) rest with
      | error e =>
        rw [hmore] at hrest
        exact hrest
      | ok more =>
        rw [hmore] at hrest
        have hall : Fetched b h (before ++ record :: rest) (stored ++ [copy] ++ more) := hrest
        rw [← List.append_cons] at hall
        exact hall

/-- **Fetching** gives all copies, or ends at the first record that has none after those before it. -/
theorem fetchEach_ends (b : Bucket R) (h : Contents) (records : List R) :
    match h.fetchEach b [] records with
    | .ok stored => Fetched b h records stored
    | .error e => ∃ before record after stored, records = before ++ record :: after ∧
        Fetched b h before stored ∧ h.copyOf b before record = .error e := by
  have hseen : ∀ k, ([] : List Bytes).contains k = true ↔ k ∈ ([] : List R).map Record.key := by
    simp
  exact (Fetched.nil b h).fetchEach_rest hseen records

/-- The copies can be fetched just if they are there and fit the indices. -/
theorem fetch_eq_ok_iff : h.fetch b records = .ok stored ↔
    Fetched b h records stored ∧ ∀ copy ∈ stored, Index.Fits b.indices copy := by
  have hends := fetchEach_ends b h records
  rw [← Index.oversizedAmong?_eq_none_iff, fetch]
  cases hfetch : h.fetchEach b [] records with
  | error e =>
    rw [hfetch] at hends
    obtain ⟨before, record, after, copies, rfl, -, hnone⟩ := hends
    constructor
    · intro he
      cases he
    · rintro ⟨hf, -⟩
      obtain ⟨copy, hcopy⟩ := hf.exists_copy
      rw [hnone] at hcopy
      cases hcopy
  | ok copies =>
    rw [hfetch] at hends
    have hf : Fetched b h records copies := hends
    dsimp only
    constructor
    · intro he
      split at he
      · cases he
      · next hnone =>
        cases he
        exact ⟨hf, hnone⟩
    · rintro ⟨hf', hnone⟩
      obtain rfl := hf.eq hf'
      rw [hnone]

/-- Why copies cannot be handed on: one is not there, or one does not fit. -/
theorem of_fetch_error {e : BucketError} (hrun : h.fetch b records = .error e) :
    (∃ before record after stored, records = before ++ record :: after ∧
      Fetched b h before stored ∧ h.copyOf b before record = .error e) ∨
    ∃ stored value, Fetched b h records stored ∧
      Index.oversizedAmong? b.indices stored = some value ∧ e = .oversized value := by
  have hends := fetchEach_ends b h records
  rw [fetch] at hrun
  cases hfetch : h.fetchEach b [] records with
  | error e' =>
    rw [hfetch] at hends hrun
    cases hrun
    exact .inl hends
  | ok stored =>
    rw [hfetch] at hends hrun
    dsimp only at hrun
    split at hrun
    · next value hlong =>
      cases hrun
      exact .inr ⟨stored, value, hends, hlong, rfl⟩
    · cases hrun

/-! ## What comes back -/

/-- The contents with mutated records in place of stored ones. -/
structure Replaced (b : Bucket R) (stored mutated : List R) (h h' : Contents) : Prop where
  /-- Each record is stored under its key, unless a later one is. -/
  put : ∀ before record after, mutated = before ++ record :: after →
    Record.key record ∉ after.map Record.key →
      ∃ bytes, b.codec.encode record = .ok bytes ∧ h'.rows.get? (Record.key record) = some bytes
  /-- All other rows are as before. -/
  kept : ∀ key, key ∉ mutated.map Record.key → h'.rows.get? key = h.rows.get? key
  /-- The entries that were not called for and are now have come; those that were and are not have
  gone. -/
  entries : ∀ index ∈ b.indices, ∀ e, (h'.entries index).contains e = true ↔
    ((Index.expected mutated index).contains e = true ∧
      ¬ (Index.expected stored index).contains e = true) ∨
    ((h.entries index).contains e = true ∧
      ((Index.expected stored index).contains e = true →
        (Index.expected mutated index).contains e = true))

variable {mutated : List R}

/-- Storing records one after the other. -/
theorem of_storeAll (hrun : mutated.foldlM (storeOne b) h = .ok h') :
    h'.entries = h.entries ∧
      (∀ key, key ∉ mutated.map Record.key → h'.rows.get? key = h.rows.get? key) ∧
      ∀ before record after, mutated = before ++ record :: after →
        Record.key record ∉ after.map Record.key → ∃ bytes, b.codec.encode record = .ok bytes ∧
          h'.rows.get? (Record.key record) = some bytes := by
  induction mutated generalizing h with
  | nil =>
    cases hrun
    exact ⟨rfl, fun _ _ => rfl, fun before record after hsplit => by simp at hsplit⟩
  | cons first rest ih =>
    rw [List.foldlM_cons] at hrun
    obtain ⟨h₁, hone, hrest⟩ := exists_of_bind_eq_ok hrun
    obtain ⟨hentries, hkept, hput⟩ := ih hrest
    obtain ⟨bytes, hencode, rfl⟩ : ∃ bytes, b.codec.encode first = .ok bytes ∧
        h₁ = { h with rows := h.rows.insert (Record.key first) bytes } := by
      rw [storeOne] at hone
      split at hone
      · cases hone
      · next bytes hencode =>
        cases hone
        exact ⟨bytes, hencode, rfl⟩
    refine ⟨hentries, fun key hkey => ?_, fun before record after hsplit hlast => ?_⟩
    · rw [List.map_cons, List.mem_cons, not_or] at hkey
      rw [hkept key hkey.2, OrderedMap.get?_insert, if_neg hkey.1]
    · cases before with
      | nil =>
        cases hsplit
        refine ⟨bytes, hencode, ?_⟩
        rw [hkept _ hlast, OrderedMap.get?_insert, if_pos rfl]
      | cons _ before =>
        cases hsplit
        exact hput before record after rfl hlast

/-- Storing fails at the first record that has no bytes. -/
theorem of_storeAll_error {e : BucketError} (hrun : mutated.foldlM (storeOne b) h = .error e) :
    ∃ before record after e', mutated = before ++ record :: after ∧
      (∀ r ∈ before, ∃ bytes, b.codec.encode r = .ok bytes) ∧
      b.codec.encode record = .error e' ∧ e = .codec e' := by
  obtain ⟨before, record, after, h₁, rfl, hbefore, hfails⟩ := exists_of_foldlM_eq_error hrun
  rw [storeOne] at hfails
  split at hfails
  · next e' hencode =>
    cases hfails
    exact ⟨before, record, after, e', rfl, fun r hr => ⟨_, b.encode_of_storeAll hbefore r hr⟩,
      hencode, rfl⟩
  · cases hfails

theorem replaced_of_storeAll (hdistinct : b.indices.Nodup)
    (hrun : mutated.foldlM (storeOne b) (h.exchange b.indices stored mutated) = .ok h') :
    Replaced b stored mutated h h' := by
  obtain ⟨hentries, hkept, hput⟩ := of_storeAll hrun
  refine ⟨hput, fun key hkey => ?_, fun index hindex e => ?_⟩
  · rw [hkept key hkey, exchange, rows_editEach]
  · rw [hentries, exchange, entries_editEach _ hdistinct, if_pos hindex]
    exact OrderedMap.contains_exchange _ _ _ _

end Contents

/-! ## The ends -/

namespace Bucket

open Call

/-- How an update ends whose mutator has ended. The store is the one that the update was called on, and
so is that of the mutator's context, which is what is left when the update fails. -/
inductive Settles (b : Bucket R) (h : Contents) (s : Store) (stored : List R) :
    EStateM.Result MutatorStop (Context σ) (Slice R stored.length) →
      EStateM.Result Stop (Context σ) Unit → Prop where
  /-- The mutator did not succeed. -/
  | stopped (stop : MutatorStop) (c : Context σ) : Settles b h s stored (.error stop c)
      (.error stop.toStop c)
  /-- The keys are others: the first two of the sorted keys that differ are named. -/
  | keyMutated {mutated : Slice R stored.length} {common rest rest' : List Bytes} {old new : Bytes}
      (c : Context σ) (hne : old ≠ new) (hold : sortedKeys stored = common ++ old :: rest)
      (hnew : sortedKeys mutated.val = common ++ new :: rest') :
      Settles b h s stored (.ok mutated c) (.error (.failed (.keyMutated old new)) c)
  /-- A value is too long. -/
  | oversized {mutated : Slice R stored.length} {value : Oversized} (c : Context σ)
      (hkeys : (mutated.val.map Record.key).Perm (stored.map Record.key))
      (hlong : Index.oversizedAmong? b.indices mutated.val = some value) :
      Settles b h s stored (.ok mutated c) (.error (.failed (.oversized value)) c)
  /-- A record has no bytes: the first one is named. -/
  | unencoded {mutated : Slice R stored.length} {before after : List R} {record : R}
      {e : CodecError} (c : Context σ)
      (hkeys : (mutated.val.map Record.key).Perm (stored.map Record.key))
      (hfits : ∀ r ∈ mutated.val, Index.Fits b.indices r)
      (hsplit : mutated.val = before ++ record :: after)
      (hbefore : ∀ r ∈ before, ∃ bytes, b.codec.encode r = .ok bytes)
      (hencode : b.codec.encode record = .error e) :
      Settles b h s stored (.ok mutated c) (.error (.failed (.codec e)) c)
  /-- The records are replaced. -/
  | settled {mutated : Slice R stored.length} {h' : Contents} {added removed : Nat} (c : Context σ)
      (hkeys : (mutated.val.map Record.key).Perm (stored.map Record.key))
      (hfits : ∀ r ∈ mutated.val, Index.Fits b.indices r)
      (hreplaced : Contents.Replaced b stored mutated.val h h') :
      Settles b h s stored (.ok mutated c)
        (.ok () { c with
          store := s.place b.config h'
          log := c.log ++ [.updated added removed] })

/-- How an update ends. -/
inductive UpdateEnds (b : Bucket R) (h : Contents) (records : List R) (mutator : Mutator σ R)
    (c : Context σ) : EStateM.Result Stop (Context σ) Unit → Prop where
  /-- There is no copy for a record: the first one counts. -/
  | refused {before after stored : List R} {record : R} {e : BucketError}
      (hsplit : records = before ++ record :: after) (hbefore : h.Fetched b before stored)
      (hnone : h.copyOf b before record = .error e) :
      UpdateEnds b h records mutator c (.error (.failed e) c)
  /-- A copy has a value that is too long. -/
  | unfiled {stored : List R} {value : Oversized} (hfetched : h.Fetched b records stored)
      (hlong : Index.oversizedAmong? b.indices stored = some value) :
      UpdateEnds b h records mutator c (.error (.failed (.oversized value)) c)
  /-- The copies are handed to the mutator, on the context of the call. -/
  | handed {stored : List R} {ended : EStateM.Result Stop (Context σ) Unit}
      (hfetched : h.Fetched b records stored) (hfits : ∀ copy ∈ stored, Index.Fits b.indices copy)
      (hsettles : b.Settles h c.store stored (mutator stored.length (.whole stored) c) ended) :
      UpdateEnds b h records mutator c ended

variable {b : Bucket R} {h : Contents} {s : Store} {c c' : Context σ} {records stored : List R}
  {mutator : Mutator σ R}

/-- What a mutator returns is put in place of the copies, or it is said why it is not. -/
theorem Settles.of_replace (hdistinct : b.indices.Nodup) {mutated : Slice R stored.length}
    {ended : EStateM.Result Stop (Context σ) Unit}
    (hended : match h.replace b stored mutated.val with
      | .error e => ended = .error (.failed e) c'
      | .ok h' => ∃ counts : Nat × Nat, ended = .ok () { c' with
          store := s.place b.config h'
          log := c'.log ++ [.updated counts.1 counts.2] }) :
    b.Settles h s stored (.ok mutated c') ended := by
  rw [Contents.replace] at hended
  cases hdiffer : firstDifference? (sortedKeys stored) (sortedKeys mutated.val) with
  | some pair =>
    obtain ⟨hne, common, rest, rest', hold, hnew⟩ := firstDifference?_eq_some_iff.mp hdiffer
    rw [hdiffer] at hended
    subst hended
    exact .keyMutated c' hne hold hnew
  | none =>
    have hkeys := (firstDifference?_eq_none_iff mutated.property.symm).mp hdiffer
    rw [hdiffer] at hended
    dsimp only at hended
    cases hfault : Index.oversizedAmong? b.indices mutated.val with
    | some value =>
      rw [hfault] at hended
      subst hended
      exact .oversized c' hkeys hfault
    | none =>
      have hfits := (Index.oversizedAmong?_eq_none_iff _ _).mp hfault
      rw [hfault] at hended
      dsimp only at hended
      cases hrun : mutated.val.foldlM (Contents.storeOne b)
          (h.exchange b.indices stored mutated.val) with
      | error e =>
        rw [hrun] at hended
        subst hended
        obtain ⟨before, record, after, e', hsplit, hbefore, hencode, rfl⟩ :=
          Contents.of_storeAll_error hrun
        exact .unencoded c' hkeys hfits hsplit hbefore hencode
      | ok h' =>
        rw [hrun] at hended
        obtain ⟨counts, rfl⟩ := hended
        exact .settled c' hkeys hfits (Contents.replaced_of_storeAll hdistinct hrun)

/-- An update that fetches copies ends as what the mutator makes of them is settled. -/
theorem settles_of_fetched (hd : b.config.Disjoint) (hc : c.Quiet)
    (hs : c.store.Holds b.config h) (hmutator : mutator.TameAt c)
    (hfetch : h.fetch b records = .ok stored) :
    b.Settles h c.store stored (mutator stored.length (.whole stored) c)
      (b.update records mutator c) := by
  have hrun := b.update_run hc hs hd.primary records hmutator
  rw [hfetch] at hrun
  dsimp only at hrun
  cases hmutated : mutator stored.length (.whole stored) c with
  | error stop c' =>
    rw [hmutated] at hrun
    dsimp only at hrun
    rw [hrun]
    exact .stopped stop c'
  | ok mutated c' =>
    rw [hmutated] at hrun
    exact .of_replace hd.distinct hrun

theorem update_ends (hd : b.config.Disjoint) (hc : c.Quiet) (hs : c.store.Holds b.config h)
    (records : List R) (hmutator : mutator.TameAt c) :
    b.UpdateEnds h records mutator c (b.update records mutator c) := by
  cases hfetch : h.fetch b records with
  | ok stored =>
    obtain ⟨hfetched, hfits⟩ := Contents.fetch_eq_ok_iff.mp hfetch
    exact .handed hfetched hfits (settles_of_fetched hd hc hs hmutator hfetch)
  | error e =>
    have hrun := b.update_run hc hs hd.primary records hmutator
    rw [hfetch] at hrun
    dsimp only at hrun
    rw [hrun]
    rcases Contents.of_fetch_error hfetch with
      ⟨before, record, after, stored, hsplit, hbefore, hnone⟩ | ⟨stored, value, hfetched, hlong, rfl⟩
    · exact .refused hsplit hbefore hnone
    · exact .unfiled hfetched hlong

/-- A mutator's success is refused for the keys just if these are not the old ones up to their
order. -/
theorem Settles.keyMutated_iff {mutated : Slice R stored.length}
    {ended : EStateM.Result Stop (Context σ) Unit}
    (hsettles : b.Settles h s stored (.ok mutated c') ended) :
    (∃ old new, ended = .error (.failed (.keyMutated old new)) c') ↔
      ¬ (mutated.val.map Record.key).Perm (stored.map Record.key) := by
  cases hsettles with
  | keyMutated _ hne hold hnew =>
    refine ⟨fun _ hperm => ?_, fun _ => ⟨_, _, rfl⟩⟩
    rw [← firstDifference?_eq_none_iff mutated.property.symm,
      firstDifference?_eq_some_iff.mpr ⟨hne, _, _, _, hold, hnew⟩] at hperm
    cases hperm
  | oversized _ hkeys | unencoded _ hkeys | settled _ hkeys =>
    refine ⟨?_, fun hnot => absurd hkeys hnot⟩
    rintro ⟨old, new, he⟩
    cases he

/-! ## Only the keys -/

theorem fetchEach_of_keys (b : Bucket R) {records' : List R}
    (hkeys : records'.map Record.key = records.map Record.key) (seen : List Bytes) :
    (b.fetchEach seen records' : Call σ (List R)) = b.fetchEach seen records := by
  induction records generalizing records' seen with
  | nil =>
    rw [List.map_eq_nil_iff.mp hkeys]
  | cons record rest ih =>
    obtain ⟨record', rest', rfl, hkey, hrest⟩ := List.map_eq_cons_iff.mp hkeys
    rw [fetchEach, fetchEach, hkey]
    simp only [ih hrest]

/-- **Of the records that an update is given, only the keys count.** -/
theorem update_of_keys (b : Bucket R) {records' : List R}
    (hkeys : records'.map Record.key = records.map Record.key) (mutator : Mutator σ R) :
    b.update records' mutator = b.update records mutator := by
  rw [update_eq, update_eq, fetchEach_of_keys b hkeys]

end Bucket

/-! ## Runs of the mutator -/

/-- The context of a caller whose code also takes notes. -/
def Context.noting (c : Context σ) : Context (List (List R × Store) × σ) :=
  { c with carried := ([], c.carried) }

/-- A mutator that notes, each time it runs, what it is handed and the store it sees. -/
def Mutator.noting (mutator : Mutator σ R) : Mutator (List (List R × Store) × σ) R :=
  fun n records c =>
    let notes := c.carried.1 ++ [(records.val, c.store)]
    match mutator n records { c with carried := c.carried.2 } with
    | .ok mutated c' => .ok mutated { c' with carried := (notes, c'.carried) }
    | .error stop c' => .error stop { c' with carried := (notes, c'.carried) }

omit [Record R] in
theorem Mutator.noting_run (mutator : Mutator σ R) (n : Nat) (records : Slice R n) (c : Context σ) :
    mutator.noting n records c.noting =
      match mutator n records c with
      | .ok mutated c' =>
        .ok mutated { c' with carried := ([(records.val, c.store)], c'.carried) }
      | .error stop c' =>
        .error stop { c' with carried := ([(records.val, c.store)], c'.carried) } := rfl

omit [Record R] in
theorem Mutator.TameAt.noting {mutator : Mutator σ R} {c : Context σ}
    (hmutator : mutator.TameAt c) : mutator.noting.TameAt c.noting := by
  intro n records
  have htame := hmutator n records
  rw [noting_run]
  cases hrun : mutator n records c with
  | ok mutated c' | error stop c' =>
    rw [hrun] at htame
    exact ⟨⟨htame.1.deaf, htame.1.calm⟩, htame.2⟩

namespace Bucket

open Call

variable {b : Bucket R} {h : Contents} {c : Context σ} {mutator : Mutator σ R}

/-- The runs of the mutator in an update: what it is handed and the store that it sees. -/
def runs (b : Bucket R) (records : List R) (mutator : Mutator σ R) (c : Context σ) :
    List (List R × Store) :=
  (context (b.update records mutator.noting c.noting)).carried.1

theorem Settles.carried {s : Store} {stored : List R}
    {ran : EStateM.Result MutatorStop (Context σ) (Slice R stored.length)}
    {ended : EStateM.Result Stop (Context σ) Unit} (hsettles : b.Settles h s stored ran ended) :
    (context ended).carried = (context ran).carried := by
  cases hsettles <;> rfl

/-- **The mutator runs once** on the copies and the store of the call, if it can be handed them, and
otherwise never. -/
theorem runs_eq (hd : b.config.Disjoint) (hc : c.Quiet) (hs : c.store.Holds b.config h)
    (records : List R) (hmutator : mutator.TameAt c) :
    b.runs records mutator c = match h.fetch b records with
      | .ok stored => [(stored, c.store)]
      | .error _ => [] := by
  have hc' : (c.noting : Context (List (List R × Store) × σ)).Quiet := ⟨hc.deaf, hc.calm⟩
  unfold runs
  cases hfetch : h.fetch b records with
  | error e =>
    have hrun := b.update_run hc' hs hd.primary records hmutator.noting
    rw [hfetch] at hrun
    dsimp only at hrun
    rw [hrun]
    rfl
  | ok stored =>
    rw [(settles_of_fetched hd hc' hs hmutator.noting hfetch).carried, Mutator.noting_run]
    cases mutator stored.length (.whole stored) c <;> rfl

/-- **An update**, whatever the tables hold, ends in one of the ways of `UpdateEnds`. The mutator runs
once, on the stored copies in the order of the records and on the committed store, if all copies are
there and fit, and otherwise never. Of the records only the keys count. Where the copies have the
keys that they are stored under, what a mutator returns is refused for its keys just if these are not
the given ones up to their order, and the first two of the sorted keys that differ are named. -/
theorem update_outcome (hvalid : b.config.validate = .ok ()) (hc : c.Quiet)
    (hs : c.store.Holds b.config h) (records : List R) (hmutator : mutator.TameAt c) :
    b.UpdateEnds h records mutator c (b.update records mutator c) ∧
    (∀ stored, h.Fetched b records stored → (∀ copy ∈ stored, Index.Fits b.indices copy) →
      b.runs records mutator c = [(stored, c.store)]) ∧
    ((¬ ∃ stored, h.Fetched b records stored ∧ ∀ copy ∈ stored, Index.Fits b.indices copy) →
      b.runs records mutator c = []) ∧
    (∀ records' : List R, records'.map Record.key = records.map Record.key →
      b.update records' mutator = b.update records mutator ∧
        b.runs records' mutator c = b.runs records mutator c) ∧
    ∀ stored mutated c', h.Fetched b records stored →
      (∀ copy ∈ stored, Index.Fits b.indices copy) →
      stored.map Record.key = records.map Record.key →
      mutator stored.length (.whole stored) c = .ok mutated c' →
        ((∃ old new, b.update records mutator c = .error (.failed (.keyMutated old new)) c') ↔
          ¬ (mutated.val.map Record.key).Perm (records.map Record.key)) ∧
        ∀ old new, b.update records mutator c = .error (.failed (.keyMutated old new)) c' →
          old ≠ new ∧ ∃ common rest rest', sortedKeys records = common ++ old :: rest ∧
            sortedKeys mutated.val = common ++ new :: rest' := by
  have hd := b.config.disjoint_of_validate hvalid
  have hruns := runs_eq hd hc hs records hmutator
  refine ⟨update_ends hd hc hs records hmutator, fun stored hfetched hfits => ?_, fun hnone => ?_,
    fun records' hkeys => ?_, fun stored mutated c' hfetched hfits hkeys hmutated => ?_⟩
  · rw [hruns, Contents.fetch_eq_ok_iff.mpr ⟨hfetched, hfits⟩]
  · rw [hruns]
    split
    · next stored hfetch => exact absurd ⟨stored, Contents.fetch_eq_ok_iff.mp hfetch⟩ hnone
    · rfl
  · exact ⟨update_of_keys b hkeys mutator, by rw [runs, runs, update_of_keys b hkeys]⟩
  · have hsettles := settles_of_fetched hd hc hs hmutator
      (Contents.fetch_eq_ok_iff.mpr ⟨hfetched, hfits⟩)
    rw [hmutated] at hsettles
    refine ⟨hkeys ▸ hsettles.keyMutated_iff, fun old new hend => ?_⟩
    rw [hend] at hsettles
    cases hsettles with
    | keyMutated _ hne hold hnew =>
      rw [sortedKeys, hkeys] at hold
      exact ⟨hne, _, _, _, hold, hnew⟩

end Bucket

/-! ### Cards that are given one key -/

/-- A mutator that gives all cards one key. -/
def Mutator.rekeying (key : Bytes) : Mutator σ Card := fun _ cards =>
  pure ⟨cards.val.map fun card => { card with key }, by rw [List.length_map, cards.property]⟩

theorem Mutator.rekeying_tameAt (key : Bytes) {c : Context σ} (hc : c.Quiet) :
    (rekeying key).TameAt c :=
  fun _ _ => ⟨hc, rfl⟩

theorem Bucket.update_outcome_cards :
    let b : Bucket Card := ⟨⟨"cards", ["suit"]⟩, .cards, ⟨none, [], [], 0⟩⟩
    let h : Contents :=
      ⟨.ofList [([7], [0, 7]), ([8], [1, 8]), ([9], [])], fun _ => .setOf [[129]]⟩
    let c : Context Unit := Call.quiet (Store.empty.place b.config h) [] ()
    let cards : List Card := [⟨[8], 5⟩, ⟨[7], 5⟩]
    let stored : List Card := [⟨[8], 1⟩, ⟨[7], 0⟩]
    b.config.validate = .ok () ∧ c.Quiet ∧ c.store.Holds b.config h ∧
      (Mutator.rekeying [7]).TameAt c ∧
      h.Fetched b cards stored ∧ b.runs cards (.rekeying [7]) c = [(stored, c.store)] ∧
      (∃ old new, b.update cards (.rekeying [7]) c = .error (.failed (.keyMutated old new)) c) ∧
      b.runs [⟨[9], 5⟩] (.rekeying [7]) c = [] := by
  intro b h c cards stored
  have hvalid : b.config.validate = .ok () := rfl
  have hc : c.Quiet := Context.quiet_quiet _ _ _
  have hs : c.store.Holds b.config h := Store.holds_place (by decide) _ _
  have htame : (Mutator.rekeying [7]).TameAt c := Mutator.rekeying_tameAt [7] hc
  have hfetched : h.Fetched b cards stored := ⟨by decide, rfl⟩
  have hfits : ∀ copy ∈ stored, Index.Fits b.indices copy := by decide +kernel
  obtain ⟨-, hruns, -, -, hkeys⟩ := Bucket.update_outcome hvalid hc hs cards htame
  obtain ⟨hiff, -⟩ := hkeys stored ⟨[⟨[7], 1⟩, ⟨[7], 0⟩], rfl⟩ c hfetched hfits rfl rfl
  have hchanged : ¬ ([[7], [7]] : List Bytes).Perm [[8], [7]] := by decide +kernel
  obtain ⟨-, -, hnever, -⟩ := Bucket.update_outcome hvalid hc hs [⟨[9], 5⟩] htame
  refine ⟨hvalid, hc, hs, htame, hfetched, hruns stored hfetched hfits, hiff.mpr hchanged,
    hnever ?_⟩
  -- The row of the key is not read as a card.
  rintro ⟨copies, hcopies, -⟩
  obtain ⟨copy, hcopy⟩ : ∃ copy, h.copyOf b [] ⟨[9], 5⟩ = .ok copy := hcopies.exists_copy
  cases hcopy

end IndexedStore
