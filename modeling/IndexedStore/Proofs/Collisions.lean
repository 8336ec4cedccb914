import IndexedStore.Proofs.Footprint
import IndexedStore.Proofs.Scrub
import IndexedStore.Record.Word

set_option autoImplicit false

/-! # Names that collide

All tables of a store share one space of names, and a configuration is only held to name different
tables itself. So the name of a bucket may be that of an index or of a metadata table of another
bucket. A table is safe from a call that opens it as another kind: the call ends with an error that
says so, and changes nothing (`Call.Refuses`). But an index that is built is dropped first, and
dropping asks for no kind. So the rows of a bucket are changed by the calls that edit the bucket,
and they are lost where an index of its name is built, and so is a descriptor (`Run.rowsIn_eq`,
`Run.metadataIn_eq`). -/

namespace IndexedStore

variable {R σ α β : Type}

/-! ## Tables of another kind -/

namespace Call

/-- The call ends with the error that the table of a name is of another kind, and leaves the store
as it was. -/
def Refuses (x : Call σ α) (c : Context σ) (name : String) (actual : TableKind) : Prop :=
  ∃ c', x c = .error (.failed (.table (.otherKind name actual))) c' ∧ c'.store = c.store

variable {c : Context σ} {name : String} {t : Table}

theorem Refuses.of_error {x : Call σ α} {actual : TableKind}
    (h : x c = .error (.failed (.table (.otherKind name actual))) c) : x.Refuses c name actual :=
  ⟨c, h, rfl⟩

/-- What comes after a call that only answers. -/
theorem Refuses.after {x : Call σ α} {f : α → Call σ β} {a : α} {actual : TableKind}
    (hx : x c = .ok a c) (hf : (f a).Refuses c name actual) : (x >>= f).Refuses c name actual := by
  unfold Refuses
  rw [bind_ok hx]
  exact hf

theorem Refuses.atomically {x : Call σ α} {f : α → Call σ β} {c' : Context σ} {actual : TableKind}
    (h : x c = .error (.failed (.table (.otherKind name actual))) c') :
    Refuses (Call.atomically x >>= f) c name actual :=
  ⟨_, bind_error (atomically_error h), rfl⟩

theorem ensure_otherKind {s : Store} {kind : TableKind} (ht : s.table? name = some t)
    (hkind : t.kind ≠ kind) : s.ensure kind name = .error (.otherKind name t.kind) := by
  simp only [Store.ensure, ht, if_neg hkind]

theorem openTable_otherKind {kind : TableKind} (ht : c.store.table? name = some t)
    (hkind : t.kind ≠ kind) :
    openTable kind name c = .error (.failed (.table (.otherKind name t.kind))) c :=
  change_refused (congrArg (Except.mapError BucketError.table) (ensure_otherKind ht hkind))

theorem rows_otherKind (ht : c.store.table? name = some t) (hkind : t.kind ≠ .primary) :
    rows name c = .error (.failed (.table (.otherKind name t.kind))) c := by
  have hread : c.store.readPrimary name = .error (.otherKind name t.kind) := by
    cases t with
    | primary rows => exact absurd rfl hkind
    | index entries => simp only [Store.readPrimary, ht]
    | metadata rows => simp only [Store.readPrimary, ht]
  rw [rows, bind_ok (store_run c), lift_error hread]

/-- Opening indices stops at a table of another kind, if all before it are index tables. -/
theorem openIndices_otherKind {before after : List String}
    (hbefore : ∀ index ∈ before, ∃ entries, c.store.table? index = some (.index entries))
    (ht : c.store.table? name = some t) (hkind : t.kind ≠ .index) :
    openIndices (before ++ name :: after) c
      = .error (.failed (.table (.otherKind name t.kind))) c := by
  induction before with
  | nil =>
    refine bind_error (change_refused ?_)
    rw [Store.openIndex, ht, ensure_otherKind ht hkind]
    rfl
  | cons index rest ih =>
    obtain ⟨⟨entries, hentries⟩, hrest⟩ := List.forall_mem_cons.mp hbefore
    rw [List.cons_append, openIndices, bind_ok (change_run (openIndex_ok hentries rfl))]
    exact ih hrest

/-- A transaction that opens the tables of a bucket for writing stops at the first index that is of
another kind. -/
theorem openBoth_otherKind {config : BucketConfig} {before after : List String}
    (hprimary : c.store.OfKind .primary config.name) (hname : config.name ∉ config.indices)
    (hindices : config.indices = before ++ name :: after)
    (hbefore : ∀ index ∈ before, ∃ entries, c.store.table? index = some (.index entries))
    (ht : c.store.table? name = some t) (hkind : t.kind ≠ .index) (x : Call σ α) :
    (do
      openTable .primary config.name
      openIndices config.indices
      x : Call σ α) c = .error (.failed (.table (.otherKind name t.kind)))
        { c with store := c.store.opened .primary config.name } := by
  have hsame : ∀ index ∈ config.indices,
      (c.store.opened .primary config.name).table? index = c.store.table? index := by
    intro index hindex
    have hne : index ≠ config.name := fun he => hname (he ▸ hindex)
    rw [Store.table?_opened, if_neg hne]
  have hmem : name ∈ config.indices := hindices ▸ by simp
  have hstop : openIndices config.indices
      { c with store := c.store.opened .primary config.name }
      = .error (.failed (.table (.otherKind name t.kind)))
        { c with store := c.store.opened .primary config.name } := by
    rw [hindices]
    refine openIndices_otherKind (fun index hindex => ?_) ((hsame name hmem).trans ht) hkind
    obtain ⟨entries, hentries⟩ := hbefore index hindex
    exact ⟨entries, (hsame index (hindices ▸ List.mem_append_left _ hindex)).trans hentries⟩
  exact (bind_ok (openTable_run hprimary)).trans (bind_error hstop)

end Call

/-! ### The calls -/

/-- The call reads or writes the rows of the bucket. -/
def Operation.OnRows : Operation σ R α → Prop
  | readIndex _ _ => False
  | write _ | read _ | readRaw _ | list _ _ | verify => True

variable [Record R] {c : Context σ} {name : String} {t : Table}

/-- **A bucket whose name stands for a table of another kind** refuses all calls that come to its
rows. -/
theorem Operation.refuses_rows (b : Bucket R) (hname : b.name ∉ b.indices) (hc : c.Quiet)
    (ht : c.store.table? b.name = some t) (hkind : t.kind ≠ .primary) {op : Operation σ R α}
    (hop : op.OnRows) : (op.call b).Refuses c b.name t.kind := by
  have hopen := Call.openTable_otherKind ht hkind
  have hrows := Call.rows_otherKind ht hkind
  have hlook := Call.look_ok hc
  cases op with
  | write w =>
    cases w with
    | insert records => exact .after hlook (.atomically (Call.bind_error hopen))
    | update records mutator =>
      exact .after hlook (.atomically (α := Nat × Nat) (Call.bind_error hopen))
    | delete keys => exact .after hlook (.atomically (α := Nat × Nat) (Call.bind_error hopen))
    | reindex =>
      -- The bucket is not named like one of its indices, so its table is not dropped before.
      have hkept : (b.indices.foldl Store.drop c.store).table? b.name = some t := by
        rw [Store.table?_dropEach, if_neg hname, ht]
      have hstop : Call.rebuild b.name b.codec b.indices c
          = .error (.failed (.table (.otherKind b.name t.kind)))
            { c with store := b.indices.foldl Store.drop c.store } :=
        (Call.bind_ok (Call.edit_run _ c)).trans
          (Call.bind_error (Call.openTable_otherKind (c := { c with store := _ }) hkept hkind))
      exact .after hlook (.atomically (Call.bind_error hstop))
  | read keys => exact .of_error ((Call.bind_ok hlook).trans (Call.bind_error hrows))
  | readRaw key => exact .of_error (Call.bind_error hrows)
  | list offset limit => exact .of_error ((Call.bind_ok hlook).trans (Call.bind_error hrows))
  | readIndex index values => exact hop.elim
  | verify => exact .of_error ((Call.bind_ok hlook).trans (Call.bind_error hrows))

namespace Call

variable {config : BucketConfig} {codec : Codec R}

/-- **A bucket is not opened** if its name stands for a table of another kind. -/
theorem openBucket_refuses_rows (hvalid : config.validate = .ok ())
    (ht : c.store.table? config.name = some t) (hkind : t.kind ≠ .primary) :
    (openBucket config codec).Refuses c config.name t.kind :=
  .after (lift_ok hvalid c) (.atomically (bind_error (openTable_otherKind ht hkind)))

/-- **A bucket is not opened** if the name of its metadata table stands for one of another kind. -/
theorem openBucket_refuses_metadata (hvalid : config.validate = .ok ())
    (hprimary : c.store.OfKind .primary config.name)
    (ht : c.store.table? config.metadataName = some t) (hkind : t.kind ≠ .metadata) :
    (openBucket config codec).Refuses c config.metadataName t.kind := by
  have hkept : (c.store.opened .primary config.name).table? config.metadataName = some t := by
    rw [Store.table?_opened, if_neg config.metadataName_ne, ht]
  exact .after (lift_ok hvalid c) (.atomically ((bind_ok (openTable_run hprimary)).trans
    (bind_error (openTable_otherKind (c := { c with store := _ }) hkept hkind))))

end Call

namespace Bucket

open Call

variable (b : Bucket R) {before after : List String}

omit [Record R] in
/-- **An index whose name stands for a table of another kind** is not read. -/
theorem readIndex_refuses (hc : c.Quiet) (hactive : name ∈ b.indices)
    (ht : c.store.table? name = some t) (hkind : t.kind ≠ .index) (values : List Bytes) :
    (b.readIndex name values).Refuses c name t.kind := by
  have hknown : ¬ (!b.indices.contains name) = true := by simp [hactive]
  have htable : indexTable name c = .error (.failed (.table (.otherKind name t.kind))) c := by
    rw [indexTable, bind_ok (store_run c), Store.readIndex, ht]
    cases t with
    | index entries => exact absurd rfl hkind
    | primary rows => rfl
    | metadata rows => rfl
  refine .of_error ?_
  rw [readIndex, if_neg hknown]
  exact (bind_ok (look_ok hc)).trans (bind_error htable)

/-- **Nothing is inserted** if an index stands for a table of another kind. -/
theorem insert_refuses (hc : c.Quiet) (hname : b.name ∉ b.indices)
    (hprimary : c.store.OfKind .primary b.name) (hindices : b.indices = before ++ name :: after)
    (hbefore : ∀ index ∈ before, ∃ entries, c.store.table? index = some (.index entries))
    (ht : c.store.table? name = some t) (hkind : t.kind ≠ .index) (records : List R) :
    (b.insert records).Refuses c name t.kind :=
  .after (look_ok hc)
    (.atomically (openBoth_otherKind hprimary hname hindices hbefore ht hkind _))

/-- **Nothing is deleted** if an index stands for a table of another kind. -/
theorem delete_refuses (hc : c.Quiet) (hname : b.name ∉ b.indices)
    (hprimary : c.store.OfKind .primary b.name) (hindices : b.indices = before ++ name :: after)
    (hbefore : ∀ index ∈ before, ∃ entries, c.store.table? index = some (.index entries))
    (ht : c.store.table? name = some t) (hkind : t.kind ≠ .index) (keys : List Bytes) :
    (b.delete keys).Refuses c name t.kind :=
  .after (look_ok hc) (.atomically (α := Nat × Nat)
    (openBoth_otherKind hprimary hname hindices hbefore ht hkind _))

/-- **Nothing is updated** if an index stands for a table of another kind, where nothing else is
wrong with the update. -/
theorem update_refuses (hc : c.Quiet) (hname : b.name ∉ b.indices)
    (hprimary : c.store.OfKind .primary b.name) (hindices : b.indices = before ++ name :: after)
    (hbefore : ∀ index ∈ before, ∃ entries, c.store.table? index = some (.index entries))
    (ht : c.store.table? name = some t) (hkind : t.kind ≠ .index) {records stored : List R}
    (hfetch : (⟨c.store.rowsIn b.name, fun _ => .empty⟩ : Contents).fetch b records = .ok stored)
    {mutator : Mutator σ R} (hmutator : mutator.Tame) {mutated : Slice R stored.length}
    {c' : Context σ} (hmutate : mutator stored.length (.whole stored)
      { c with store := c.store.opened .primary b.name } = .ok mutated c')
    (hkeys : firstDifference? (sortedKeys stored) (sortedKeys mutated.val) = none)
    (hfits : ∀ record ∈ mutated.val, Index.Fits b.indices record) :
    (b.update records mutator).Refuses c name t.kind := by
  have hc₁ := hc.setStore (c.store.opened .primary b.name)
  obtain ⟨hquiet, hstore⟩ : c'.Quiet ∧ c'.store = c.store.opened .primary b.name := by
    have htame := hmutator _ (.whole stored) _ hc₁
    rwa [hmutate] at htame
  -- The call gets as far as the mutator, and the mutator as far as the indices.
  have hfetched := b.fetchEach_eq (h := ⟨c.store.rowsIn b.name, fun _ => .empty⟩) hc₁
    (Store.table?_opened_primary hprimary) [] records
  have hentries := entriesByIndex_eq hc₁ stored b.indices
  have hrun := mutate_eq mutator stored { c with store := c.store.opened .primary b.name }
  rw [hmutate] at hrun
  rw [Contents.fetch] at hfetch
  cases hstored : (⟨c.store.rowsIn b.name, fun _ => .empty⟩ : Contents).fetchEach b [] records with
  | error e =>
    rw [hstored] at hfetch
    cases hfetch
  | ok fetched =>
    rw [hstored] at hfetch hfetched
    dsimp only at hfetch
    split at hfetch
    · cases hfetch
    · next hshort =>
      cases hfetch
      rw [hshort] at hentries
      have hindex : ∀ index ∈ b.indices, c'.store.table? index = c.store.table? index := by
        intro index hindex
        have hne : index ≠ b.name := fun he => hname (he ▸ hindex)
        rw [hstore, Store.table?_opened, if_neg hne]
      have hstop : b.replace stored (b.indices.map (Index.expected stored)) mutated.val c'
          = .error (.failed (.table (.otherKind name t.kind)))
            { c' with store := c'.store.opened .primary b.name } := by
        have hafter := entriesByIndex_eq hquiet mutated.val b.indices
        rw [(Index.oversizedAmong?_eq_none_iff b.indices mutated.val).mpr hfits] at hafter
        rw [replace, hkeys]
        refine (bind_ok hafter).trans (@openBoth_otherKind σ (Nat × Nat) _ _ _ b.config _ _ ?_ hname
          hindices (fun index hmem => ?_) ((hindex name (hindices ▸ by simp)).trans ht) hkind _)
        · rw [hstore]
          exact Store.ofKind_of_table? (Store.table?_opened_primary hprimary)
        · obtain ⟨entries, htable⟩ := hbefore index hmem
          exact ⟨entries, (hindex index (hindices ▸ List.mem_append_left _ hmem)).trans htable⟩
      rw [update_eq]
      exact .after (look_ok hc) (.atomically ((bind_ok (openTable_run hprimary)).trans
        ((bind_ok hfetched).trans ((bind_ok hentries).trans ((bind_ok (look_ok hc₁)).trans
          ((bind_ok hrun).trans hstop))))))

omit [Record R] in
theorem compareEach_otherKind (hc : c.Quiet) (expected : Expected)
    (hbefore : ∀ index ∈ before, c.store.OfKind .index index)
    (ht : c.store.table? name = some t) (hkind : t.kind ≠ .index) :
    compareEach expected (before ++ name :: after) c
      = .error (.failed (.table (.otherKind name t.kind))) c := by
  induction before with
  | nil =>
    have hcompare : compareIndex name ((expected.get? name).getD .empty) c
        = .error (.failed (.table (.otherKind name t.kind))) c := by
      rw [compareIndex, bind_ok (store_run c), Store.readIndex, ht]
      cases t with
      | index entries => exact absurd rfl hkind
      | primary rows => rfl
      | metadata rows => rfl
    exact bind_error hcompare
  | cons index rest ih =>
    obtain ⟨hindex, hrest⟩ := List.forall_mem_cons.mp hbefore
    obtain ⟨finding, hcompare⟩ : ∃ finding,
        compareIndex index ((expected.get? index).getD .empty) c = .ok finding c := by
      rw [compareIndex, bind_ok (store_run c), Store.readIndex]
      cases htable : c.store.table? index with
      | none => exact ⟨_, rfl⟩
      | some u =>
        obtain ⟨entries, rfl⟩ := Table.eq_index_of_kind (hindex u htable)
        exact ⟨_, bind_ok (lookEach_ok hc entries.keys)⟩
    exact (bind_ok hcompare).trans (bind_error (ih hrest))

/-- **A scrub stops** at an index that stands for a table of another kind, where nothing is wrong
with the rows. -/
theorem verify_refuses (hc : c.Quiet) {stored : OrderedMap Bytes Bytes}
    (hstored : c.store.table? b.name = some (.primary stored)) {records : List R}
    (hdecode : stored.toList.map (fun row => b.codec.decode row.2) = records.map .ok)
    (hfits : ∀ record ∈ records, Index.Fits b.indices record)
    (hindices : b.indices = before ++ name :: after)
    (hbefore : ∀ index ∈ before, c.store.OfKind .index index)
    (ht : c.store.table? name = some t) (hkind : t.kind ≠ .index) :
    b.verify.Refuses c name t.kind := by
  obtain ⟨expected, hexpect, -⟩ := b.expectEach_ok hc hdecode hfits (gathered_none b.indices)
  refine .after (look_ok hc) (.after (rows_ok hstored) (.after hexpect (.of_error ?_)))
  rw [hindices]
  exact bind_error (compareEach_otherKind hc expected hbefore ht hkind)

end Bucket

/-- How a bucket refuses tables of other kinds, where nothing disturbs it. -/
structure Bucket.Refusing (b : Bucket R) (c : Context σ) : Prop where
  /-- Nothing is done if its name stands for another kind. -/
  rows : ∀ t, c.store.table? b.name = some t → t.kind ≠ .primary →
    (∀ {α : Type} (op : Operation σ R α), op.OnRows → (op.call b).Refuses c b.name t.kind) ∧
      (Call.openBucket b.config b.codec).Refuses c b.name t.kind
  /-- It is not opened if the name of its metadata table does. -/
  metadata : c.store.OfKind .primary b.name → ∀ t,
    c.store.table? b.config.metadataName = some t → t.kind ≠ .metadata →
      (Call.openBucket b.config b.codec).Refuses c b.config.metadataName t.kind
  /-- An index whose name does is not read. -/
  readIndex : ∀ index ∈ b.indices, ∀ t, c.store.table? index = some t → t.kind ≠ .index →
    ∀ values, (b.readIndex index values).Refuses c index t.kind
  /-- Nothing is edited if the first index without a table of its own does, where nothing is wrong
  before that. -/
  edits : c.store.OfKind .primary b.name → ∀ before index after,
    b.indices = before ++ index :: after →
    (∀ i ∈ before, ∃ entries, c.store.table? i = some (.index entries)) →
    ∀ t, c.store.table? index = some t → t.kind ≠ .index →
      (∀ records, (b.insert records).Refuses c index t.kind) ∧
      (∀ keys, (b.delete keys).Refuses c index t.kind) ∧
      ∀ records stored, (⟨c.store.rowsIn b.name, fun _ => .empty⟩ : Contents).fetch b records
          = .ok stored →
        ∀ mutator : Mutator σ R, mutator.Tame → ∀ mutated c', mutator stored.length (.whole stored)
            { c with store := c.store.opened .primary b.name } = .ok mutated c' →
          firstDifference? (sortedKeys stored) (sortedKeys mutated.val) = none →
          (∀ record ∈ mutated.val, Index.Fits b.indices record) →
          (b.update records mutator).Refuses c index t.kind
  /-- A scrub stops at the first index whose name does, where nothing is wrong with the rows. -/
  verify : ∀ stored, c.store.table? b.name = some (.primary stored) → ∀ records : List R,
    stored.toList.map (fun row => b.codec.decode row.2) = records.map .ok →
    (∀ record ∈ records, Index.Fits b.indices record) → ∀ before index after,
    b.indices = before ++ index :: after → (∀ i ∈ before, c.store.OfKind .index i) →
    ∀ t, c.store.table? index = some t → t.kind ≠ .index → b.verify.Refuses c index t.kind

/-- **A bucket refuses tables of other kinds.** -/
theorem Bucket.refusing (b : Bucket R) (hvalid : b.config.validate = .ok ()) (hc : c.Quiet) :
    b.Refusing c := by
  have hname := (b.config.disjoint_of_validate hvalid).primary
  refine ⟨fun t ht hkind => ⟨fun op hop => op.refuses_rows b hname hc ht hkind hop,
      Call.openBucket_refuses_rows hvalid ht hkind⟩,
    fun hprimary t ht hkind => Call.openBucket_refuses_metadata hvalid hprimary ht hkind,
    fun index hindex t ht hkind => b.readIndex_refuses hc hindex ht hkind,
    fun hprimary before index after hindices hbefore t ht hkind => ⟨?_, ?_, ?_⟩,
    fun stored hstored records hdecode hfits before index after hindices hbefore t ht hkind =>
      b.verify_refuses hc hstored hdecode hfits hindices hbefore ht hkind⟩
  · exact b.insert_refuses hc hname hprimary hindices hbefore ht hkind
  · exact b.delete_refuses hc hname hprimary hindices hbefore ht hkind
  · intro records stored hfetch mutator hmutator mutated c' hmutate hkeys hfits
    exact b.update_refuses hc hname hprimary hindices hbefore ht hkind hfetch hmutator hmutate
      hkeys hfits

/-! ## Records and descriptors -/

namespace Store

variable {s : Store}

theorem rowsIn_of_ofKind {kind : TableKind} (h : s.OfKind kind name) (hkind : kind ≠ .primary) :
    s.rowsIn name = .empty := by
  unfold rowsIn
  split
  · next rows ht => exact absurd (h _ ht).symm hkind
  · rfl

theorem metadataIn_of_ofKind {kind : TableKind} (h : s.OfKind kind name)
    (hkind : kind ≠ .metadata) : s.metadataIn name = .empty := by
  unfold metadataIn
  split
  · next rows ht => exact absurd (h _ ht).symm hkind
  · rfl

theorem rowsIn_congr {s' : Store} (h : s'.table? name = s.table? name) :
    s'.rowsIn name = s.rowsIn name := by
  simp only [rowsIn, h]

theorem metadataIn_congr {s' : Store} (h : s'.table? name = s.table? name) :
    s'.metadataIn name = s.metadataIn name := by
  simp only [metadataIn, h]

end Store

namespace Deed

variable {s s' : Store} {deed : Deed} {spared : String → Prop}

theorem touched_of_built {index : String} (h : index ∈ deed.built) : index ∈ deed.touched := by
  cases deed with
  | nothing | edit config => cases h
  | rebuild config | opening config built => exact h

/-- An index that was touched has a table. -/
theorem Leaves.index_touched (h : deed.Leaves spared s' s) {index : String}
    (hindex : index ∈ deed.touched) : ∃ entries, s'.table? index = some (.index entries) := by
  cases deed with
  | nothing => cases hindex
  | edit config => exact (h.index index hindex).2
  | rebuild config => exact h.index index hindex
  | opening config built => exact h.index index hindex

/-- A bucket that a call was made on has no table of another kind for its rows, before and after. -/
theorem Leaves.primary_kinds (h : deed.Leaves spared s' s) (hon : deed.On name) :
    s.OfKind .primary name ∧ s'.OfKind .primary name := by
  cases deed with
  | nothing => exact hon.elim
  | edit config =>
    obtain rfl : config.name = name := hon
    exact h.primary
  | rebuild config =>
    obtain rfl : config.name = name := hon
    exact ⟨h.kind, Store.ofKind_of_table? h.rows⟩
  | opening config built =>
    obtain rfl : config.name = name := hon
    exact ⟨h.kinds.1, Store.ofKind_of_table? h.rows⟩

/-- **One call** leaves what a store shows of a name that is spared, if that is nothing for tables of
all kinds but one, or takes it away by building an index of that name. What it does to the tables of
its bucket other than indices is asked for. -/
theorem Leaves.view_eq (h : deed.Leaves spared s' s) (hspared : spared name) {ν : Type}
    {view : Store → ν} {empty : ν} {kind : TableKind} (hkind : .index ≠ kind)
    (hempty : ∀ {u : Store} {other : TableKind}, u.OfKind other name → other ≠ kind →
      view u = empty)
    (hsame : s'.table? name = s.table? name → view s' = view s)
    (hrows : deed.On name → view s' = view s)
    (hmeta : ∀ config : BucketConfig, deed.Opens config.name → name = config.metadataName →
      s.OfKind .metadata name ∧ s'.OfKind .metadata name → view s' = view s) :
    view s' = if name ∈ deed.built then empty else view s := by
  by_cases hbuilt : name ∈ deed.built
  · rw [if_pos hbuilt]
    exact hempty (Store.ofKind_of_index (h.index_touched (touched_of_built hbuilt))) hkind
  rw [if_neg hbuilt]
  by_cases hon : deed.On name
  · exact hrows hon
  cases deed with
  | nothing => rw [show s' = s from h]
  | edit config =>
    by_cases hindex : name ∈ config.indices
    · rw [hempty (Store.ofKind_of_index ((h.index name hindex).1 hspared)) hkind,
        hempty (Store.ofKind_of_index (h.index name hindex).2) hkind]
    · exact hsame (h.other name hspared (fun he => hon he.symm) hindex)
  | rebuild config => exact hsame (h.other name (fun he => hon he.symm) hbuilt)
  | opening config indices =>
    by_cases hname : name = config.metadataName
    · exact hmeta config rfl hname (hname ▸ ⟨h.kinds.2, Store.ofKind_of_table? h.metadata⟩)
    · exact hsame (h.other name (fun he => hon he.symm) hname hbuilt)

/-- **One call** leaves the rows of a bucket that it does not edit, or takes them all away, by
building an index of that name. -/
theorem Leaves.rowsIn_eq (h : deed.Leaves spared s' s) (hspared : spared name)
    (hedits : ¬ deed.Edits name) :
    s'.rowsIn name = if name ∈ deed.built then .empty else s.rowsIn name := by
  refine h.view_eq hspared (by decide) Store.rowsIn_of_ofKind Store.rowsIn_congr (fun hon => ?_)
    fun config _ _ hkinds => ?_
  · cases deed with
    | nothing => exact hon.elim
    | edit config => exact absurd hon hedits
    | rebuild config =>
      obtain rfl : config.name = name := hon
      exact Store.rowsIn_eq h.rows
    | opening config built =>
      obtain rfl : config.name = name := hon
      exact Store.rowsIn_eq h.rows
  · rw [Store.rowsIn_of_ofKind hkinds.1 (by decide), Store.rowsIn_of_ofKind hkinds.2 (by decide)]

/-- **One call** leaves the descriptor of a bucket that it does not open, or takes it away, by
building an index of the name of the metadata table. -/
theorem Leaves.metadataIn_eq (h : deed.Leaves spared s' s)
    (hspared : spared (name ++ metadataSuffix)) (hopens : ¬ deed.Opens name) :
    s'.metadataIn (name ++ metadataSuffix) = if name ++ metadataSuffix ∈ deed.built then .empty
      else s.metadataIn (name ++ metadataSuffix) := by
  refine h.view_eq hspared (by decide) Store.metadataIn_of_ofKind Store.metadataIn_congr (fun hon => ?_)
    fun config hopened hmeta _ => ?_
  · obtain ⟨hbefore, hafter⟩ := h.primary_kinds hon
    rw [Store.metadataIn_of_ofKind hbefore (by decide),
      Store.metadataIn_of_ofKind hafter (by decide)]
  · exact absurd ((String.append_left_inj metadataSuffix).mp hmeta ▸ hopened) hopens

end Deed

/-! ## Runs -/

/-- Calls are made on a store one after the other, and their mutators leave the tables of the names
that are spared as they are. -/
inductive Run (spared : String → Prop) : Store → List Deed → Store → Prop
  | nil (s : Store) : Run spared s [] s
  | cons {s s' s'' : Store} {deed : Deed} {deeds : List Deed} (first : Done spared s deed s')
      (rest : Run spared s' deeds s'') : Run spared s (deed :: deeds) s''

namespace Run

variable {s s' : Store} {deeds : List Deed} {spared : String → Prop}

/-- What every call leaves, unless it empties it, is left or was emptied on the way. -/
theorem left_or_emptied {ν : Type} {look : Store → ν} {empty : ν} {p : Deed → Prop} {index : String}
    (hstep : ∀ {s s' : Store} {deed : Deed}, Done spared s deed s' → p deed →
      look s' = if index ∈ deed.built then empty else look s)
    (h : Run spared s deeds s') (hp : ∀ deed ∈ deeds, p deed) :
    look s' = if ∃ deed ∈ deeds, index ∈ deed.built then empty else look s := by
  induction h with
  | nil s => simp
  | @cons s s₁ s₂ deed deeds first rest ih =>
    obtain ⟨hfirst, hrest⟩ := List.forall_mem_cons.mp hp
    rw [ih hrest, hstep first hfirst]
    by_cases hlater : ∃ deed ∈ deeds, index ∈ deed.built
    · obtain ⟨later, hmem, hbuilt⟩ := hlater
      rw [if_pos ⟨later, hmem, hbuilt⟩, if_pos ⟨later, List.mem_cons_of_mem _ hmem, hbuilt⟩]
    · by_cases hnow : index ∈ deed.built
      · rw [if_neg hlater, if_pos hnow, if_pos ⟨deed, List.mem_cons_self, hnow⟩]
      · rw [if_neg hlater, if_neg hnow, if_neg]
        rintro ⟨other, hmem, hbuilt⟩
        rcases List.mem_cons.mp hmem with rfl | hmem
        · exact hnow hbuilt
        · exact hlater ⟨other, hmem, hbuilt⟩

/-- **The rows of a bucket** that is not edited are those it had, or an index of its name was
built. -/
theorem rowsIn_eq (h : Run spared s deeds s') (hspared : spared name)
    (hedits : ∀ deed ∈ deeds, ¬ deed.Edits name) :
    s'.rowsIn name = if ∃ deed ∈ deeds, name ∈ deed.built then .empty else s.rowsIn name :=
  h.left_or_emptied (fun hdone hnot => hdone.leaves.rowsIn_eq hspared hnot) hedits

/-- **The descriptor of a bucket** that is not opened is the one it had, or an index of the name of
its metadata table was built. -/
theorem metadataIn_eq (h : Run spared s deeds s') (hspared : spared (name ++ metadataSuffix))
    (hopens : ∀ deed ∈ deeds, ¬ deed.Opens name) :
    s'.metadataIn (name ++ metadataSuffix)
      = if ∃ deed ∈ deeds, name ++ metadataSuffix ∈ deed.built then .empty
        else s.metadataIn (name ++ metadataSuffix) :=
  h.left_or_emptied (fun hdone hnot => hdone.leaves.metadataIn_eq hspared hnot) hopens

/-- **What a call may change, and what becomes of names that collide.** A call changes only the
tables of its bucket, and these as its deed says; it succeeds only where each table that it opens is
of its kind, changes nothing where it fails, and says which table was of another kind. So over a run
the rows of a bucket that is not edited and the descriptor of one that is not opened stay what they
are, unless an index of the name of their table is built: then they are lost. All of it is said of the
tables that mutators spare: of all tables, if mutators change none. -/
theorem kept_unless_built (h : Run spared s deeds s') :
    (∀ name, spared name → (∀ deed ∈ deeds, ¬ deed.Edits name) → s'.rowsIn name
      = if ∃ deed ∈ deeds, name ∈ deed.built then .empty else s.rowsIn name) ∧
    (∀ name, spared (name ++ metadataSuffix) → (∀ deed ∈ deeds, ¬ deed.Opens name) →
      s'.metadataIn (name ++ metadataSuffix)
        = if ∃ deed ∈ deeds, name ++ metadataSuffix ∈ deed.built then .empty
          else s.metadataIn (name ++ metadataSuffix)) ∧
    (∀ t deed t', Done spared t deed t' → deed.Leaves spared t' t) ∧
    ∀ {R σ : Type} [Record R] (b : Bucket R), b.config.validate = .ok () → ∀ c : Context σ,
      (∀ {α : Type} (op : Operation σ R α), op.Mutators (Mutator.Within (.leaving spared)) →
        (∀ a c', op.call b c = .ok a c' → op.Found b c.store spared) ∧
        ∀ stop c', op.call b c = .error stop c' → c'.store = c.store) ∧
      (∀ stop c', Call.openBucket b.config b.codec c = .error stop c' → c'.store = c.store) ∧
      ((Call.context (b.size c)).store = c.store ∧ (Call.context (b.isEmpty c)).store = c.store ∧
        ∀ key, (Call.context (b.contains key c)).store = c.store) ∧
      (c.Quiet → b.Refusing c) := by
  refine ⟨fun name => h.rowsIn_eq, fun name => h.metadataIn_eq, fun t deed t' hdone => hdone.leaves,
    fun b hvalid c => ⟨fun op hop => ⟨fun a c' => op.found b hop hvalid, op.reverts b c⟩,
      Call.openBucket_reverts _ _ c, ⟨Call.Reads.stepwise.size b c, Call.Reads.stepwise.isEmpty b c,
        fun key => Call.Reads.stepwise.contains b key c⟩, b.refusing hvalid⟩⟩

/-! ### A bucket that is named like an index -/

theorem kept_unless_built_words :
    ∃ s s' : Store, ∃ deeds, Run (fun _ => True) s deeds s' ∧
      s.rowsIn "words" = .ofList [([7], [7])] ∧ deeds = [.opening ⟨"notes", ["initial"]⟩ ["initial"]] ∧
      s'.rowsIn "words" = s.rowsIn "words" := by
  let notes : BucketConfig := ⟨"notes", ["initial"]⟩
  let c : Context Unit :=
    Call.quiet (Store.empty.put "words" (.primary (.ofList [([7], [7])]))) [] ()
  obtain ⟨b, hopen, hbuilt⟩ := Call.ok_of_check (x := Call.openBucket notes Codec.words) (c := c)
    (fun b => b.reconciliation.rebuilt = ["initial"]) (by decide +kernel)
  have hrun : Run (fun _ => True) _ _ _ := .cons (.opened hopen) (.nil _)
  obtain ⟨hrows, -⟩ := hrun.kept_unless_built
  rw [of_decide_eq_true hbuilt] at hrun hrows
  have hkept := hrows "words" trivial (by simp [Deed.Edits])
  rw [if_neg (by simp [Deed.built])] at hkept
  exact ⟨_, _, _, hrun, by decide +kernel, rfl, hkept⟩

/-- A word that is inserted into a bucket, and lost when another bucket is opened that has an index
of the name of the first. -/
theorem lost_to_an_index :
    let words : BucketConfig := ⟨"words", []⟩
    let notes : BucketConfig := ⟨"notes", ["words"]⟩
    words.validate = .ok () ∧ notes.validate = .ok () ∧ ∃ s s' : Store,
      (∃ built, Run (fun _ => True) .empty [.opening words built, .edit words] s) ∧
      Done (fun _ => True) s (.opening notes ["words"]) s' ∧
      s.rowsIn "words" = .ofList [([7], [7])] ∧ s'.rowsIn "words" = .empty := by
  intro words notes
  let b : Bucket Word := ⟨words, .words, ⟨none, [], [], 0⟩⟩
  let c₀ : Context Unit := Call.quiet .empty [] ()
  let c₁ := Call.context (Call.openBucket words Codec.words c₀)
  let c₂ := Call.context (b.insert [⟨[7]⟩] c₁)
  obtain ⟨b₁, hfirst, -⟩ := Call.ok_of_check (x := Call.openBucket words Codec.words) (c := c₀)
    (fun _ => true) (by decide +kernel)
  obtain ⟨⟨⟩, hinsert, -⟩ := Call.ok_of_check (x := b.insert [⟨[7]⟩]) (c := c₁)
    (fun _ => true) (by decide +kernel)
  obtain ⟨b₂, hsecond, hbuilt⟩ := Call.ok_of_check (x := Call.openBucket notes Codec.words)
    (c := c₂) (fun b => b.reconciliation.rebuilt = ["words"]) (by decide +kernel)
  have hdone : Done (fun _ => True) _ _ _ := .opened hsecond
  rw [of_decide_eq_true hbuilt] at hdone
  let inserting : Operation Unit Word Unit := .write (.insert [⟨[7]⟩])
  have hinserted : Done (fun _ => True) c₁.store (inserting.deed b) c₂.store :=
    .called rfl (show inserting.Mutators _ from trivial) (.inl rfl) hinsert
  exact ⟨rfl, rfl, _, _, ⟨_, .cons (.opened hfirst) (.cons hinserted (.nil _))⟩, hdone,
    by decide +kernel, by decide +kernel⟩

end Run

end IndexedStore
