import Mathlib.Data.List.Dedup
import IndexedStore.Proofs.Agreement
import IndexedStore.Proofs.Counting
import IndexedStore.Proofs.Deleting
import IndexedStore.Proofs.Mutating
import IndexedStore.Proofs.Replacing

set_option autoImplicit false

/-! # What is logged of a change

A call that changes a bucket logs how many entries it has added and how many it has removed. Where the
tables are those of their records, an event accounts for its call (`Event.Accounts`): it logs the number
of entries that have come and the number of those that have gone, so the entries balance.

The numbers are counted in another way than this (`Proofs.Counting`), and that they come to the same has
to do with the keys. An entry ends with the key of its record, so records that come in call for no entry
that is there; and an update puts no entry that another record has, for what it compares are the entries
of all records with the keys that it was given, before and after.

The mutator of an update runs on the live transaction. What it does to the tables of the indices is
nowhere counted, so it has to leave them as they are. -/

namespace IndexedStore

variable {R σ : Type}

/-! ## Events -/

/-- The number that an event logs in a field, and zero if it logs none. -/
def Event.counted (event : Event) (field : String) : Nat :=
  match event.fields.lookup field with
  | some (.number n) => n
  | _ => 0

/-- An event accounts for the entries that have come and gone from one store to another. -/
structure Event.Accounts (event : Event) (s s' : Store) (indices : List String) : Prop where
  /-- The entries that have come were logged. -/
  added : event.counted "entries_added" = s'.surplus s indices
  /-- The entries that have gone were logged. -/
  removed : event.counted "entries_removed" = s.surplus s' indices
  /-- With the entries that were logged, those before and those after balance. -/
  balance : s'.entryCount indices + event.counted "entries_removed"
    = s.entryCount indices + event.counted "entries_added"

theorem Event.accounts_of {event : Event} {s s' : Store} {indices : List String}
    (hadded : event.counted "entries_added" = s'.surplus s indices)
    (hremoved : event.counted "entries_removed" = s.surplus s' indices) :
    event.Accounts s s' indices := by
  refine ⟨hadded, hremoved, ?_⟩
  rw [hadded, hremoved]
  exact s.entryCount_add_surplus s' indices

variable [Record R] {b : Bucket R} {h : Contents} {stored copies records mutated : List R}

/-! ## Entries that cannot be there -/

namespace Contents

/-- Copies that were fetched are stored records. -/
theorem Fetched.subset (hf : h.Fetched b records copies)
    (hstored : b.codec.Legible b.indices h.rows.toList stored) :
    ∀ copy ∈ copies, copy ∈ stored := by
  intro copy hcopy
  have hmem : some (Except.ok copy) ∈ records.map fun record =>
      (h.rows.get? (Record.key record)).map b.codec.decode := by
    rw [hf.copies]
    exact List.mem_map_of_mem hcopy
  obtain ⟨record, -, hread⟩ := List.mem_map.mp hmem
  obtain ⟨bytes, hrow, hdecode⟩ := Option.map_eq_some_iff.mp hread
  have hdecoded : b.codec.decode bytes ∈ stored.map Except.ok := by
    rw [← hstored.decode]
    exact List.mem_map.mpr ⟨_, (OrderedMap.mem_toList_iff _ _ _).mpr hrow, rfl⟩
  rw [hdecode] at hdecoded
  obtain ⟨_, hin, he⟩ := List.mem_map.mp hdecoded
  exact Except.ok.inj he ▸ hin

/-- The rows that are lost are those of the different keys that have one. -/
theorem Loses.size_rows {keys : List Bytes} {h' : Contents} (hl : Loses b keys h h') :
    h'.rows.size + (keys.dedup.filter h.rows.contains).length = h.rows.size := by
  have hkept : h.rows.keys.filter (fun key => !decide (key ∈ keys)) = h'.rows.keys := by
    refine OrderedMap.eq_of_ascending (h.rows.keys_ascending.filter _) h'.rows.keys_ascending
      fun key => ?_
    rw [List.mem_filter, OrderedMap.mem_keys_iff, OrderedMap.mem_keys_iff, OrderedMap.contains,
      OrderedMap.contains, hl.rows]
    by_cases hkey : key ∈ keys <;> simp [hkey]
  have hlost : (h.rows.keys.filter fun key => decide (key ∈ keys)).Perm
      (keys.dedup.filter h.rows.contains) := by
    have hnodup := OrderedMap.nodup_of_ascending h.rows.keys_ascending
    refine (List.perm_ext_iff_of_nodup (hnodup.filter _) (keys.nodup_dedup.filter _)).mpr
      fun key => ?_
    rw [List.mem_filter, List.mem_filter, List.mem_dedup, OrderedMap.mem_keys_iff,
      decide_eq_true_eq, and_comm]
  have hall := List.length_eq_length_filter_add (l := h.rows.keys) fun key => decide (key ∈ keys)
  rw [hkept, hlost.length_eq, OrderedMap.length_keys, OrderedMap.length_keys] at hall
  omega

end Contents

/-- Stored records with different keys: of those with the keys of some of them there are no others. -/
theorem Codec.Legible.mem_of_key {rows : OrderedMap Bytes Bytes} {codec : Codec R}
    {indices : List String} (hstored : codec.Legible indices rows.toList stored)
    (hsub : ∀ copy ∈ copies, copy ∈ stored) {record : R} (hrecord : record ∈ stored)
    (hkey : Record.key record ∈ copies.map Record.key) : record ∈ copies := by
  have hdistinct : (stored.map Record.key).Nodup := by
    rw [hstored.keys]
    exact OrderedMap.nodup_of_ascending rows.keys_ascending
  obtain ⟨copy, hcopy, hsame⟩ := List.mem_map.mp hkey
  rwa [← List.inj_on_of_nodup_map hdistinct (hsub copy hcopy) hrecord hsame]

/-- **An entry that some records come to call for** is not one of any stored record, where they have the
keys of copies and no copy calls for it. -/
theorem Index.not_contains_of_uncalled {rows : OrderedMap Bytes Bytes} {codec : Codec R}
    {indices : List String} (hstored : codec.Legible indices rows.toList stored)
    (hsub : ∀ copy ∈ copies, copy ∈ stored)
    (hkeys : (mutated.map Record.key).Perm (copies.map Record.key)) (index : String) :
    ∀ e ∈ (expected mutated index).without (expected copies index),
      ¬ (expected stored index).contains e = true := by
  intro e he hold
  obtain ⟨hnew, huncalled⟩ := (OrderedMap.mem_without_iff _ _ _).mp he
  obtain ⟨record, hrecord, value, -, rfl⟩ := (contains_expected _ _ _).mp hnew
  obtain ⟨owner, howner, hkey, hvalue⟩ := (contains_expected_entry _ _ _ _).mp hold
  have hasked : Record.key owner ∈ copies.map Record.key := by
    rw [hkey]
    exact hkeys.mem_iff.mp (List.mem_map_of_mem hrecord)
  have hcopy := hstored.mem_of_key hsub howner hasked
  exact huncalled ((contains_expected_entry _ _ _ _).mpr ⟨owner, hcopy, hkey, hvalue⟩)

/-! ## Inserting and deleting -/

namespace Bucket

open Call

variable {c c' : Context σ} {keys : List Bytes} {α : Type}

omit [Record R] in
/-- A transaction on the open tables of a bucket that looks at the token last. -/
theorem of_openLooked (hc : c.Quiet) (hs : c.store.Holds b.config h) {x : Call σ α}
    {r : Except BucketError Contents} (hx : Makes x c b.config r) {a : α}
    (hrun : (do
      openTable .primary b.name
      openIndices b.indices
      let a ← x
      look
      return a : Call σ α) c = .ok a c') :
    x c = .ok a c' ∧ ∃ h', r = .ok h' ∧ c' = { c with store := c.store.place b.config h' } := by
  rw [bind_ok (b.open_ok hs).1, bind_ok (b.open_ok hs).2] at hrun
  obtain ⟨a', c₁, hfirst, hlooking⟩ := of_bind_ok hrun
  obtain ⟨h', hmade, rfl⟩ := hx.of_ok hfirst
  rw [bind_ok (look_ok (hc.setStore _))] at hlooking
  cases hlooking
  exact ⟨hfirst, h', hmade, rfl⟩

omit [Record R] in
theorem entriesIn_of_holds (hs : c.store.Holds b.config h) {index : String}
    (hindex : index ∈ b.indices) : c.store.entriesIn index = h.entries index :=
  Store.entriesIn_eq (hs.index index hindex)

theorem accounts_of_insert (hd : b.config.Disjoint) (hs : c.store.Holds b.config h)
    (hstored : b.codec.Legible b.indices h.rows.toList stored)
    (hexact : ∀ index ∈ b.indices, h.entries index = Index.expected stored index)
    (hrun : b.insert records c = .ok () c') :
    ∃ added, c'.log = c.log ++ [.inserted added] ∧
      (Event.inserted added).Accounts c.store c'.store b.indices := by
  have hquiet := c.quiet_undisturbed
  have hedits := Frame.any_edits b.config
  obtain ⟨added, c₁, hinside, hstore, hlog⟩ := of_transaction (Undisturbed.stepwise.openLooked
    hedits (Undisturbed.stepwise.insertEach b hedits records)) hrun
  obtain ⟨hinsert, h', hmade, rfl⟩ := of_openLooked hquiet hs
    (b.insertEach_makes hquiet hs hd.primary records) hinside
  obtain ⟨hadmits, hgains⟩ := Contents.gains_of_insertAll hd.distinct hmade
  have hs' : c'.store.Holds b.config h' := hstore ▸ Store.holds_place hd.primary _ _
  -- What the records call for is new to every table.
  have hunion : ∀ index ∈ b.indices,
      (c'.store.entriesIn index).without (c.store.entriesIn index)
        = (Index.expected records index).keys ∧
      (c.store.entriesIn index).without (c'.store.entriesIn index) = [] := by
    intro index hindex
    rw [entriesIn_of_holds hs hindex, entriesIn_of_holds hs' hindex, hgains.entries index hindex]
    refine OrderedMap.union_without fun e he => ?_
    obtain ⟨record, hrecord, value, hvalue, he⟩ := (Index.contains_expected _ _ _).mp he
    exact hadmits.foreign hstored hexact index hindex record hrecord e
      ((Index.contains_expected _ _ _).mpr ⟨record, List.mem_singleton_self _, value, hvalue, he⟩)
  refine ⟨added, hlog, Event.accounts_of ?_ ?_⟩
  · show added = _
    rw [of_insertEach hinsert, Index.sum_size_expected hadmits.distinct, Store.surplus]
    congr 1
    refine List.map_congr_left fun index hindex => ?_
    rw [(hunion index hindex).1, OrderedMap.length_keys]
  · exact (Store.surplus_eq_zero fun index hindex => (hunion index hindex).2).symm

/-- **A deletion** accounts for itself in any tables, and deletes the rows of the keys that have one. -/
theorem accounts_of_delete (hd : b.config.Disjoint) (hs : c.store.Holds b.config h)
    (hrun : b.delete keys c = .ok () c') :
    ∃ deleted removed, c'.log = c.log ++ [.deleted deleted removed] ∧
      (Event.deleted deleted removed).Accounts c.store c'.store b.indices ∧
      (Event.deleted deleted removed).counted "deleted"
        = (keys.dedup.filter h.rows.contains).length ∧
      ∃ before after, b.size c = .ok before c ∧ b.size c' = .ok after c' ∧
        before = after + (Event.deleted deleted removed).counted "deleted" := by
  have hquiet := c.quiet_undisturbed
  have hedits := Frame.any_edits b.config
  obtain ⟨⟨deleted, removed⟩, c₁, hinside, hstore, hlog⟩ := @of_transaction σ (Nat × Nat) _
    (Undisturbed.stepwise.openLooked hedits (Undisturbed.stepwise.deleteEach b hedits keys))
    (fun counts => .deleted counts.1 counts.2) c c' hrun
  obtain ⟨hdelete, h', hmade, rfl⟩ := of_openLooked hquiet hs
    (b.deleteEach_makes hquiet hs hd.primary keys) hinside
  obtain ⟨-, hloses⟩ := Contents.loses_of_deleteAll hd.distinct hmade
  have hs' : c'.store.Holds b.config h' := hstore ▸ Store.holds_place hd.primary _ _
  have hsheds := sheds_of_deleteEach hd.distinct hdelete
  rw [← hstore] at hsheds
  obtain ⟨hgained, hlost⟩ := hsheds.surplus_eq
  have hrows : h'.rows.size + deleted = h.rows.size := by
    rw [← Store.rowsIn_eq hs.primary, ← Store.rowsIn_eq hs'.primary]
    exact hsheds.rows
  have hsize := hloses.size_rows
  refine ⟨deleted, removed, hlog, Event.accounts_of hgained.symm hlost.symm, ?_,
    h.rows.size, h'.rows.size, bind_ok (rows_ok hs.primary), bind_ok (rows_ok hs'.primary),
    hrows.symm⟩
  show deleted = _
  omega

/-! ## Updating -/

/-- Copies that were fetched are those of the records, each of a key of its own. -/
theorem fetched_of_fetchEach (hs : c.store.Holds b.config h)
    (hrun : b.fetchEach [] records c = .ok copies c') : h.Fetched b records copies := by
  have hquiet := Undisturbed.stepwise.fetchEach b [] records c copies c' hrun
  rw [b.fetchEach_eq c.quiet_undisturbed hs.primary] at hquiet
  obtain ⟨hfetch, -⟩ := of_lift_ok hquiet
  have hends := Contents.fetchEach_ends b h records
  rw [hfetch] at hends
  exact hends

omit b in
/-- Records that were asked have answered with what they call for. -/
theorem expected_of_entriesByIndex {indices : List String} {found : List (OrderedSet Bytes)}
    (hrun : entriesByIndex records indices c = .ok found c') :
    found = indices.map (Index.expected records) := by
  have hquiet := Undisturbed.stepwise.entriesByIndex records indices c found c' hrun
  rw [entriesByIndex_eq c.quiet_undisturbed] at hquiet
  split at hquiet
  · cases hquiet
  · exact (EStateM.Result.ok.inj hquiet).1.symm

/-- Of the records that are put in place of copies, what they come to call for is counted as added, and
what they do not call for any more as removed, where the tables hold none of the first. -/
theorem surplus_of_replace (hdistinct : b.indices.Nodup) {counts : Nat × Nat}
    (hnew : ∀ index ∈ b.indices,
      ∀ e ∈ (Index.expected mutated index).without (Index.expected copies index),
        ¬ (c.store.entriesIn index).contains e = true)
    (hrun : b.replace copies (b.indices.map (Index.expected copies)) mutated c = .ok counts c') :
    counts.1 = c'.store.surplus c.store b.indices ∧
      counts.2 = c.store.surplus c'.store b.indices := by
  obtain ⟨-, after, c₁, hafter, hopening⟩ := b.settled_of_replace hrun
  obtain rfl := expected_of_entriesByIndex hafter
  obtain ⟨⟨⟩, c₂, hopen, hchecking⟩ := of_bind_ok hopening
  obtain ⟨⟨⟩, c₃, hcheck, hrefiling⟩ := of_bind_ok hchecking
  obtain ⟨counts', c₄, hrefile, hstoring⟩ := of_bind_ok hrefiling
  obtain ⟨⟨⟩, c₅, hstore, hlooking⟩ := of_bind_ok hstoring
  obtain ⟨⟨⟩, c₆, hlook, hend⟩ := of_bind_ok hlooking
  cases hend
  obtain ⟨hthere, rfl⟩ := of_openIndices hcheck
  -- Before the exchange of the entries and after it no index table is changed.
  have hedits := Frame.keepingEntries_edits b.name
  have hbefore : ∀ index ∈ b.indices, c₃.store.entriesIn index = c.store.entriesIn index := by
    intro index _
    rw [← (Reads.stepwise.entriesByIndex mutated b.indices).of_ok hafter]
    exact Within.stepwise.openTable hedits.opened _ _ _ hopen index
  have hafterwards : ∀ index ∈ b.indices,
      c₄.store.entriesIn index = c'.store.entriesIn index := by
    intro index _
    rw [Reads.look.of_ok hlook]
    exact (Within.stepwise.storeEach b hedits.putRow mutated _ _ _ hstore index).symm
  obtain ⟨hadded, hremoved⟩ := of_refileEntries hdistinct hthere
    (fun index hindex => hbefore index hindex ▸ hnew index hindex) hrefile
  rw [hadded, hremoved]
  exact ⟨Store.surplus_congr hafterwards hbefore, Store.surplus_congr hbefore hafterwards⟩

omit [Record R] in
theorem length_of_mutate {mutator : Mutator σ R}
    (hrun : mutate mutator copies c = .ok mutated c') : copies.length = mutated.length := by
  obtain ⟨slice, -, rfl⟩ := of_mutate hrun
  exact slice.property.symm

/-- **An update** accounts for itself if its mutator leaves the tables of the indices as they are. -/
theorem accounts_of_update (hd : b.config.Disjoint) (hs : c.store.Holds b.config h)
    (hstored : b.codec.Legible b.indices h.rows.toList stored)
    (hexact : ∀ index ∈ b.indices, h.entries index = Index.expected stored index)
    {mutator : Mutator σ R} (hmutator : mutator.Within (.leaving fun name => name ∈ b.indices))
    (hrun : b.update records mutator c = .ok () c') :
    ∃ log added removed, c'.log = log ++ [.updated added removed] ∧
      (Event.updated added removed).Accounts c.store c'.store b.indices := by
  obtain ⟨c₁, c₂, c₃, c₄, c₅, c₆, copies, mutated, before, counts, -, hopened, hfetch, hbefore,
    hread, hmutate, hreplace, hstore, hlog⟩ := b.of_update hrun
  -- The primary table is there, so opening it changes nothing.
  have hprimary : c.store.table? b.name = some (.primary h.rows) := hs.primary
  rw [Store.opened_of_table? hprimary] at hopened
  have hfetched := fetched_of_fetchEach (hopened ▸ hs) hfetch
  obtain rfl := expected_of_entriesByIndex hbefore
  have hleft : ∀ index ∈ b.indices, c₅.store.entriesIn index = c.store.entriesIn index := by
    intro index hindex
    have htable := hmutator.mutate copies c₄ mutated c₅ hmutate index hindex
    rw [Store.entriesIn_congr htable, hread, hopened]
  have hkeys : (mutated.map Record.key).Perm (copies.map Record.key) :=
    (firstDifference?_eq_none_iff (length_of_mutate hmutate)).mp (b.settled_of_replace hreplace).1
  have hsub := hfetched.subset hstored
  obtain ⟨hadded, hremoved⟩ := surplus_of_replace hd.distinct (fun index hindex => by
    rw [hleft index hindex, entriesIn_of_holds hs hindex, hexact index hindex]
    exact Index.not_contains_of_uncalled hstored hsub hkeys index) hreplace
  refine ⟨c₆.log, counts.1, counts.2, hlog, Event.accounts_of ?_ ?_⟩
  · show counts.1 = _
    rw [hadded, hstore]
    exact Store.surplus_congr (fun _ _ => rfl) hleft
  · show counts.2 = _
    rw [hremoved, hstore]
    exact Store.surplus_congr hleft fun _ _ => rfl

/-- **Logged numbers balance** where the tables are those of their records. Each call that changes the
bucket ends the log with an event that accounts for it: what is logged as added are the entries that have
come to the tables of the indices, and what is logged as removed those that have gone. An update does so
if its mutator leaves these tables as they are. A deletion logs how many of the different keys had a row,
which is by how much the bucket has shrunk. -/
theorem logged_counts_balance (hvalid : b.config.validate = .ok ())
    (hs : c.store.Holds b.config h) (hstored : b.codec.Legible b.indices h.rows.toList stored)
    (hexact : ∀ index ∈ b.indices, h.entries index = Index.expected stored index) :
    (∀ records c', b.insert records c = .ok () c' →
      ∃ added, c'.log = c.log ++ [.inserted added] ∧
        (Event.inserted added).Accounts c.store c'.store b.indices) ∧
    (∀ records (mutator : Mutator σ R) c',
      mutator.Within (.leaving fun name => name ∈ b.indices) →
      b.update records mutator c = .ok () c' →
        ∃ log added removed, c'.log = log ++ [.updated added removed] ∧
          (Event.updated added removed).Accounts c.store c'.store b.indices) ∧
    ∀ keys c', b.delete keys c = .ok () c' →
      ∃ deleted removed, c'.log = c.log ++ [.deleted deleted removed] ∧
        (Event.deleted deleted removed).Accounts c.store c'.store b.indices ∧
        (Event.deleted deleted removed).counted "deleted"
          = (keys.dedup.filter h.rows.contains).length ∧
        ∃ before after, b.size c = .ok before c ∧ b.size c' = .ok after c' ∧
          before = after + (Event.deleted deleted removed).counted "deleted" := by
  have hd := b.config.disjoint_of_validate hvalid
  refine ⟨fun records c' hrun => ?_, fun records mutator c' hmutator hrun => ?_,
    fun keys c' hrun => ?_⟩
  · exact accounts_of_insert hd hs hstored hexact hrun
  · exact accounts_of_update hd hs hstored hexact hmutator hrun
  · exact accounts_of_delete hd hs hrun

/-! ### Cards of one suit -/

theorem logged_counts_balance_cards :
    let b : Bucket Card := ⟨⟨"cards", ["suit"]⟩, .cards, ⟨none, [], [], 0⟩⟩
    let kept : List Card := [⟨[7], 1⟩, ⟨[8], 3⟩]
    let sound : Contents := ⟨.ofList [([7], [1, 7]), ([8], [3, 8])], Index.expected kept⟩
    let c : Context Unit := quiet (Store.empty.place b.config sound) [] ()
    b.config.validate = .ok () ∧ c.store.Holds b.config sound ∧
      b.codec.Legible b.indices sound.rows.toList kept ∧
      (∀ index ∈ b.indices, sound.entries index = Index.expected kept index) ∧
      (∃ c', b.insert [⟨[9], 1⟩] c = .ok () c' ∧ c'.log = [.inserted 1] ∧
        (Event.inserted 1).Accounts c.store c'.store b.indices) ∧
      (∃ c', b.update [⟨[7], 0⟩] (.recoloring 3) c = .ok () c' ∧
        c'.log = [.updated 1 1] ∧ (Event.updated 1 1).Accounts c.store c'.store b.indices) ∧
      ∃ c', b.delete [[7], [4], [7]] c = .ok () c' ∧ c'.log = [.deleted 1 1] ∧
        (Event.deleted 1 1).Accounts c.store c'.store b.indices := by
  intro b kept sound c
  have hvalid : b.config.validate = .ok () := rfl
  have hs : c.store.Holds b.config sound := Store.holds_place (by decide) _ _
  have hlegible : b.codec.Legible b.indices sound.rows.toList kept :=
    ⟨rfl, rfl, by decide +kernel⟩
  have hexact : ∀ index ∈ b.indices, sound.entries index = Index.expected kept index :=
    fun _ _ => rfl
  have hmutator : (Mutator.recoloring 3 : Mutator Unit Card).Within
      (.leaving fun name => name ∈ b.indices) := by
    rintro n cards c₀ mutated c₁ ⟨⟩ name _
    rfl
  obtain ⟨hinserts, hupdates, hdeletes⟩ :=
    Bucket.logged_counts_balance hvalid hs hlegible hexact
  refine ⟨hvalid, hs, hlegible, hexact, ?_, ?_, ?_⟩
  · obtain ⟨c', hrun, hlog⟩ := ran_of_check (x := b.insert [⟨[9], 1⟩]) (c := c)
      (fun c' => decide (c'.log = [.inserted 1])) (by decide +kernel)
    have hlast := of_decide_eq_true hlog
    obtain ⟨added, hlogged, haccounts⟩ := hinserts _ c' hrun
    rw [hlast] at hlogged
    cases hlogged
    exact ⟨c', hrun, hlast, haccounts⟩
  · obtain ⟨c', hrun, hlog⟩ := ran_of_check (x := b.update [⟨[7], 0⟩] (.recoloring 3)) (c := c)
      (fun c' => decide (c'.log = [.updated 1 1])) (by decide +kernel)
    have hlast := of_decide_eq_true hlog
    obtain ⟨log, added, removed, hlogged, haccounts⟩ := hupdates _ _ c' hmutator hrun
    rw [hlast] at hlogged
    obtain ⟨rfl, rfl⟩ : 1 = added ∧ 1 = removed := by
      simpa using congrArg List.getLast? hlogged
    exact ⟨c', hrun, hlast, haccounts⟩
  · obtain ⟨c', hrun, hlog⟩ := ran_of_check (x := b.delete [[7], [4], [7]]) (c := c)
      (fun c' => decide (c'.log = [.deleted 1 1])) (by decide +kernel)
    have hlast := of_decide_eq_true hlog
    obtain ⟨deleted, removed, hlogged, haccounts, -⟩ := hdeletes _ c' hrun
    rw [hlast] at hlogged
    cases hlogged
    exact ⟨c', hrun, hlast, haccounts⟩

end Bucket

/-! ### An entry that a mutator puts -/

theorem Bucket.filed_entry_uncounted :
    let b : Bucket Card := ⟨⟨"cards", ["suit"]⟩, .cards, ⟨none, [], [], 0⟩⟩
    let kept : List Card := [⟨[7], 1⟩]
    let sound : Contents := ⟨.ofList [([7], [1, 7])], Index.expected kept⟩
    let c : Context Unit := Call.quiet (Store.empty.place b.config sound) [] ()
    b.config.validate = .ok () ∧ c.store.Holds b.config sound ∧
      b.codec.Legible b.indices sound.rows.toList kept ∧
      (∀ index ∈ b.indices, sound.entries index = Index.expected kept index) ∧
      ∃ c', b.update kept (.filing "suit" [129]) c = .ok () c' ∧ c'.log = [.updated 0 0] ∧
        c'.store.entryCount b.indices + (Event.updated 0 0).counted "entries_removed"
          ≠ c.store.entryCount b.indices + (Event.updated 0 0).counted "entries_added" := by
  intro b kept sound c
  have hs : c.store.Holds b.config sound := Store.holds_place (by decide) _ _
  have hlegible : b.codec.Legible b.indices sound.rows.toList kept :=
    ⟨rfl, rfl, by decide +kernel⟩
  obtain ⟨c', hrun, hchecked⟩ := Call.ran_of_check (x := b.update kept (.filing "suit" [129]))
    (c := c) (fun c' => decide (c'.log = [.updated 0 0] ∧
      c'.store.entryCount b.indices = c.store.entryCount b.indices + 1)) (by decide +kernel)
  obtain ⟨hlog, hcount⟩ := of_decide_eq_true hchecked
  refine ⟨rfl, hs, hlegible, fun _ _ => rfl, c', hrun, hlog, ?_⟩
  show c'.store.entryCount b.indices + 0 ≠ c.store.entryCount b.indices + 0
  omega

end IndexedStore
