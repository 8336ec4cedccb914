import IndexedStore.Proofs.Batches
import IndexedStore.Proofs.Rollback

set_option autoImplicit false

/-! # Updates on contents

An update fetches the stored copies of the records (`Contents.fetch`), hands them to the mutator,
and puts what comes back in their place (`Contents.replace`), if it has the same keys. Only the
mutator's own part depends on more than the contents: it runs on the live transaction, in just the
context that the call was made in (`update_writes`). -/

namespace IndexedStore

variable {R σ : Type} [Record R]

/-! ## The functions -/

/-- The first value of any of the records that is too long, index by index. -/
def Index.oversizedAmong? (indices : List String) (records : List R) : Option Oversized :=
  indices.findSome? fun index => records.findSome? fun record => oversized? record index

theorem Index.oversizedAmong?_eq_none_iff (indices : List String) (records : List R) :
    oversizedAmong? indices records = none ↔ ∀ record ∈ records, Fits indices record := by
  simp only [oversizedAmong?, List.findSome?_eq_none_iff, oversized?_eq_none_iff, Fits]
  exact ⟨fun h record hr index hi => h index hi record hr,
    fun h index hi record hr => h record hr index hi⟩

namespace Contents

/-- The stored copies of records, after those of the keys already `seen`. -/
def fetchEach (b : Bucket R) (h : Contents) (seen : List Bytes) :
    List R → Except BucketError (List R)
  | [] => .ok []
  | record :: rest =>
    if seen.contains (Record.key record) then .error (.duplicateKey (Record.key record))
    else
      match h.rows.get? (Record.key record) with
      | none => .error (.unknownKey (Record.key record))
      | some bytes =>
        match b.codec.decode bytes with
        | .error e => .error (.codec e)
        | .ok stored => (h.fetchEach b (Record.key record :: seen) rest).map (stored :: ·)

/-- The stored copies of records, as far as they can be handed to a mutator. -/
def fetch (b : Bucket R) (records : List R) (h : Contents) : Except BucketError (List R) :=
  match h.fetchEach b [] records with
  | .error e => .error e
  | .ok stored =>
    match Index.oversizedAmong? b.indices stored with
    | some value => .error (.oversized value)
    | none => .ok stored

/-- The contents with the row of a record. -/
def storeOne (b : Bucket R) (h : Contents) (record : R) : Except BucketError Contents :=
  match b.codec.encode record with
  | .error e => .error (.codec e)
  | .ok bytes => .ok { h with rows := h.rows.insert (Record.key record) bytes }

/-- The contents with other entries for records that are replaced. -/
def exchange (indices : List String) (stored mutated : List R) (h : Contents) : Contents :=
  h.editEach (fun index t =>
    t.exchange (Index.expected stored index) (Index.expected mutated index)) indices

/-- The contents with the mutated records in place of the stored ones. -/
def replace (b : Bucket R) (stored mutated : List R) (h : Contents) : Except BucketError Contents :=
  match firstDifference? (sortedKeys stored) (sortedKeys mutated) with
  | some (old, new) => .error (.keyMutated old new)
  | none =>
    match Index.oversizedAmong? b.indices mutated with
    | some value => .error (.oversized value)
    | none => mutated.foldlM (storeOne b) (h.exchange b.indices stored mutated)

/-- The contents after an update in a context. -/
def update (b : Bucket R) (records : List R) (mutator : Mutator σ R) (c : Context σ)
    (h : Contents) : Except Stop Contents :=
  match h.fetch b records with
  | .error e => .error (.failed e)
  | .ok stored =>
    match mutator stored.length (.whole stored) c with
    | .error stop _ => .error stop.toStop
    | .ok mutated _ => (h.replace b stored mutated.val).mapError .failed

end Contents

/-! ## The calls -/

/-- However a mutator ends in a quiet context, it leaves the store as it was and the context
quiet. -/
def Mutator.Tame (mutator : Mutator σ R) : Prop :=
  ∀ n records c, c.Quiet → (Call.context (mutator n records c)).Quiet ∧
    (Call.context (mutator n records c)).store = c.store

/-- The same of one context. -/
def Mutator.TameAt (mutator : Mutator σ R) (c : Context σ) : Prop :=
  ∀ n records, (Call.context (mutator n records c)).Quiet ∧
    (Call.context (mutator n records c)).store = c.store

namespace Bucket

open Call

variable (b : Bucket R) {c : Context σ} {h : Contents}

theorem fetchEach_eq (hc : c.Quiet) (hprimary : c.store.table? b.name = some (.primary h.rows))
    (seen : List Bytes) (records : List R) :
    b.fetchEach seen records c = lift id (h.fetchEach b seen records) c := by
  have hrows : rows b.name c = .ok h.rows c := rows_ok hprimary
  induction records generalizing seen with
  | nil => rfl
  | cons record rest ih =>
    rw [fetchEach, bind_ok (look_ok hc), Contents.fetchEach]
    by_cases hseen : seen.contains (Record.key record) = true
    · rw [if_pos hseen, if_pos hseen, bind_error (fail_run _ c)]
      rfl
    · rw [if_neg hseen, if_neg hseen]
      refine (bind_ok hrows).trans ?_
      cases h.rows.get? (Record.key record) with
      | none => rfl
      | some bytes =>
        dsimp only
        cases hdecode : b.codec.decode bytes with
        | error e =>
          have hfail : decode b.codec bytes c = .error (.failed (.codec e)) c := by
            rw [decode_eq hc, lift_error hdecode]
          exact bind_error hfail
        | ok stored =>
          refine (bind_ok (decode_ok hc hdecode)).trans ?_
          have hrest := ih (Record.key record :: seen)
          cases hfetch : h.fetchEach b (Record.key record :: seen) rest with
          | error e =>
            rw [hfetch] at hrest
            exact bind_error hrest
          | ok stored =>
            rw [hfetch] at hrest
            exact bind_ok hrest

theorem collectEntries_eq (hc : c.Quiet) (index : String) (entries : OrderedSet Bytes)
    (records : List R) :
    collectEntries index entries records c =
      match records.findSome? fun record => Index.oversized? record index with
      | some value => .error (.failed (.oversized value)) c
      | none => .ok (entries.union (Index.expected records index)) c := by
  induction records generalizing entries with
  | nil => rfl
  | cons record rest ih =>
    have hasked := entriesOf_eq hc record index
    rw [Index.entries_eq] at hasked
    cases hfault : Index.oversized? record index with
    | some value =>
      rw [hfault] at hasked
      rw [List.findSome?_cons, hfault]
      exact bind_error hasked
    | none =>
      have hunion : (entries.union (Index.expected [record] index)).union
          (Index.expected rest index) = entries.union (Index.expected (record :: rest) index) := by
        refine OrderedMap.ext_contains fun e => ?_
        simp only [OrderedMap.contains_union, or_assoc, Index.contains_expected_cons record rest]
      rw [hfault] at hasked
      rw [List.findSome?_cons, hfault, collectEntries, bind_ok hasked, ih, hunion]

theorem entriesByIndex_eq (hc : c.Quiet) (records : List R) (indices : List String) :
    entriesByIndex records indices c =
      match Index.oversizedAmong? indices records with
      | some value => .error (.failed (.oversized value)) c
      | none => .ok (indices.map (Index.expected records)) c := by
  induction indices with
  | nil => rfl
  | cons index rest ih =>
    have hcollected := collectEntries_eq hc index .empty records
    rw [Index.oversizedAmong?, List.findSome?_cons]
    cases hfault : records.findSome? fun record => Index.oversized? record index with
    | some value =>
      rw [hfault] at hcollected
      exact bind_error hcollected
    | none =>
      have hempty : OrderedMap.union .empty (Index.expected records index)
          = Index.expected records index := by
        refine OrderedMap.ext_contains fun e => ?_
        rw [OrderedMap.contains_union, or_iff_right (OrderedMap.not_contains_empty e)]
      rw [hfault, hempty] at hcollected
      rw [entriesByIndex, bind_ok hcollected]
      rw [Index.oversizedAmong?] at ih
      cases hrest : rest.findSome? fun index =>
          records.findSome? fun record => Index.oversized? record index with
      | some value =>
        rw [hrest] at ih
        exact bind_error ih
      | none =>
        rw [hrest] at ih
        exact bind_ok ih

theorem refileEntries_makes {config : BucketConfig} (hs : c.store.Holds config h)
    (hname : config.name ∉ config.indices) (before after : List R) {indices : List String}
    (hsub : ∀ index ∈ indices, index ∈ config.indices) :
    Makes (refileEntries indices (indices.map (Index.expected before))
      (indices.map (Index.expected after))) c config (.ok (h.exchange indices before after)) := by
  induction indices generalizing c h with
  | nil => exact .pure hs (0, 0)
  | cons index rest ih =>
    have hindex := hsub index List.mem_cons_self
    have hrest : ∀ i ∈ rest, i ∈ config.indices := fun i hi => hsub i (List.mem_cons_of_mem _ hi)
    -- The two edits of the table come to one exchange.
    have hadded : ∀ t, Makes (addEntries index ((Index.expected after index).without
          (Index.expected before index)) : Call σ Nat)
        { c with store := c.store.place config (h.setIndex index t) } config
        (.ok (h.setIndex index (((Index.expected after index).without
          (Index.expected before index)).foldl (fun t e => t.insert e ()) t))) := by
      intro t
      have hholds := Store.holds_place hname c.store (h.setIndex index t)
      have hmakes := addEntries_makes (c := { c with store := _ }) hholds hname hindex
        ((Index.expected after index).without (Index.expected before index))
      rwa [Contents.entries_setIndex, Contents.setIndex_setIndex] at hmakes
    refine .step (removeEntries_makes hs hname hindex _) fun removed =>
      .step (hadded _) fun added => ?_
    exact (ih (Store.holds_place hname _ _) hrest).map fun counts =>
      (added + counts.1, removed + counts.2)

theorem storeEach_makes (hc : c.Quiet) (hs : c.store.Holds b.config h) (hname : b.name ∉ b.indices)
    (records : List R) :
    Makes (b.storeEach records) c b.config (records.foldlM (Contents.storeOne b) h) := by
  induction records generalizing c h with
  | nil => exact .pure hs ()
  | cons record rest ih =>
    rw [List.foldlM_cons, Contents.storeOne]
    cases hencode : b.codec.encode record with
    | error e => exact .failed (by rw [encode_eq hc, hencode]; rfl)
    | ok bytes =>
      refine .after (encode_ok hc hencode) (.step (.edit (hs.putRow _ _)) fun _ => ?_)
      exact ih (hc.setStore _) (Store.holds_place hname _ _)

/-- What is done with what the mutator made of the stored copies. -/
theorem replace_makes (hc : c.Quiet) (hs : c.store.Holds b.config h) (hname : b.name ∉ b.indices)
    (stored mutated : List R) :
    Makes (b.replace stored (b.indices.map (Index.expected stored)) mutated : Call σ (Nat × Nat))
      c b.config (h.replace b stored mutated) := by
  rw [Contents.replace, Bucket.replace]
  cases firstDifference? (sortedKeys stored) (sortedKeys mutated) with
  | some keys => exact .failed (fail_run _ c)
  | none =>
    have hentries := entriesByIndex_eq hc mutated b.indices
    cases hfault : Index.oversizedAmong? b.indices mutated with
    | some value =>
      rw [hfault] at hentries
      exact .failed hentries
    | none =>
      rw [hfault] at hentries
      refine .after hentries (.after (b.open_ok hs).1 (.after (b.open_ok hs).2 ?_))
      refine .step (refileEntries_makes hs hname stored mutated fun _ hi => hi) fun counts => ?_
      exact (b.storeEach_makes (hc.setStore _) (Store.holds_place hname _ _) hname mutated).andThen
        fun _ s => ⟨counts, bind_ok (look_ok (hc.setStore s))⟩

/-- The transaction of an update fails where the copies cannot be handed on, and otherwise comes down to
what is made of them. -/
theorem update_fetches (hc : c.Quiet) (hs : c.store.Holds b.config h) (records : List R)
    (mutator : Mutator σ R) :
    (do
      openTable .primary b.name
      let stored ← b.fetchEach [] records
      let before ← entriesByIndex stored b.indices
      look
      let mutated ← mutate mutator stored
      b.replace stored before mutated : Call σ (Nat × Nat)) c =
      match h.fetch b records with
      | .error e => .error (.failed e) c
      | .ok stored =>
        (mutate mutator stored >>= b.replace stored (b.indices.map (Index.expected stored))) c := by
  refine (bind_ok (b.open_ok hs).1).trans ?_
  have hfetch := b.fetchEach_eq hc hs.primary [] records
  unfold Contents.fetch
  cases hstored : h.fetchEach b [] records with
  | error e =>
    rw [hstored] at hfetch
    exact bind_error hfetch
  | ok stored =>
    rw [hstored] at hfetch
    refine (bind_ok hfetch).trans ?_
    have hentries := entriesByIndex_eq hc stored b.indices
    dsimp only
    cases hfault : Index.oversizedAmong? b.indices stored with
    | some value =>
      rw [hfault] at hentries
      exact bind_error hentries
    | none =>
      rw [hfault] at hentries
      exact (bind_ok hentries).trans (bind_ok (look_ok hc))

/-- **How an update runs**: it fetches, lets the mutator run on the context of the call, and replaces,
and no step but the last changes anything. -/
theorem update_run (hc : c.Quiet) (hs : c.store.Holds b.config h) (hname : b.name ∉ b.indices)
    (records : List R) {mutator : Mutator σ R} (hmutator : mutator.TameAt c) :
    match h.fetch b records with
    | .error e => b.update records mutator c = .error (.failed e) c
    | .ok stored =>
      match mutator stored.length (.whole stored) c with
      | .error stop c' => b.update records mutator c = .error stop.toStop c'
      | .ok mutated c' =>
        match h.replace b stored mutated.val with
        | .error e => b.update records mutator c = .error (.failed e) c'
        | .ok h' => ∃ counts : Nat × Nat, b.update records mutator c
            = .ok () { c' with
              store := c.store.place b.config h'
              log := c'.log ++ [.updated counts.1 counts.2] } := by
  have hreached := b.update_fetches hc hs records mutator
  rw [update_eq, bind_ok (look_ok hc)]
  cases hfetch : h.fetch b records with
  | error e =>
    rw [hfetch] at hreached
    exact bind_error (atomically_error hreached)
  | ok stored =>
    rw [hfetch] at hreached
    have hmutate := mutate_eq mutator stored c
    have htame := hmutator _ (.whole stored)
    dsimp only at hreached ⊢
    cases hrun : mutator stored.length (.whole stored) c with
    | error stop c' =>
      -- The transaction is undone; only what the mutator carries along is kept.
      rw [hrun] at hmutate htame
      have hstore : c'.store = c.store := htame.2
      refine (bind_error (atomically_error (hreached.trans (bind_error hmutate)))).trans ?_
      rw [← hstore]
    | ok mutated c' =>
      -- The rest of the call starts where the mutator ended, on the same store.
      rw [hrun] at hmutate htame
      obtain ⟨hc', hstore⟩ : c'.Quiet ∧ c'.store = c.store := htame
      have hrest := hreached.trans (bind_ok hmutate)
      have hmakes := b.replace_makes hc' (hstore ▸ hs) hname stored mutated.val
      let event := fun counts : Nat × Nat => Event.updated counts.1 counts.2
      dsimp only
      cases hreplace : h.replace b stored mutated.val with
      | error e =>
        rw [hreplace] at hmakes
        exact hmakes.run_error hstore hrest event
      | ok h' =>
        rw [hreplace] at hmakes
        exact hmakes.run_ok hstore hrest event

/-- **Updating** makes of the contents what `Contents.update` says. -/
theorem update_writes (hc : c.Quiet) (hs : c.store.Holds b.config h) (hname : b.name ∉ b.indices)
    (records : List R) {mutator : Mutator σ R} (hmutator : mutator.Tame) :
    Writes (b.update records mutator) c b.config (h.update b records mutator c) := by
  have hrun := b.update_run hc hs hname records fun n records => hmutator n records c hc
  unfold Contents.update
  cases hfetch : h.fetch b records with
  | error e =>
    rw [hfetch] at hrun
    exact ⟨c, hrun, hc, rfl⟩
  | ok stored =>
    have htame := hmutator _ (.whole stored) c hc
    rw [hfetch] at hrun
    dsimp only at hrun ⊢
    cases hmutated : mutator stored.length (.whole stored) c with
    | error stop c' =>
      rw [hmutated] at hrun htame
      exact ⟨c', hrun, htame.1, htame.2⟩
    | ok mutated c' =>
      rw [hmutated] at hrun htame
      dsimp only at hrun ⊢
      cases hreplace : h.replace b stored mutated.val with
      | error e =>
        rw [hreplace] at hrun
        exact ⟨c', hrun, htame.1, htame.2⟩
      | ok h' =>
        rw [hreplace] at hrun
        obtain ⟨counts, hrun⟩ := hrun
        exact ⟨_, hrun, ⟨htame.1.deaf, htame.1.calm⟩, rfl⟩

end Bucket

end IndexedStore
