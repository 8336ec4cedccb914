import IndexedStore.Proofs.Frames
import IndexedStore.Proofs.Operations

set_option autoImplicit false

/-! # What calls are made of

Every call is put together from a few steps by sequencing, and by making a transaction of a part. A
property of calls that the steps have, and that both of these keep, is one that every call has. What
is said here follows the text of the calls and nothing else, so a property is proved of all of them
by looking at the steps.

Some steps come to the store and some do not, and of those that change it a property may hold only
within a frame. So there are two kinds of properties: those of the steps that do not come to the store
and of sequencing (`Call.Sequential`), which parts of calls have, and those of the other steps too, as
far as the frame allows them (`Call.Stepwise`). A call that reads needs nothing of the frame, and one
that edits a bucket needs that the frame allows it (`Frame.Edits`).

A mutator is no call of the library, and an update has the property if its mutator does. -/

namespace IndexedStore

namespace Call

variable {σ : Type}

/-- A property that the steps have which do not come to the store, and that sequencing keeps. -/
structure Sequential (P : {α : Type} → Call σ α → Prop) : Prop where
  pure {α : Type} (a : α) : P (pure a)
  fail {α : Type} (error : BucketError) : P (fail error : Call σ α)
  log (event : Event) : P (log event)
  pass (point : Point) : P (pass point)
  look : P look
  bind {α β : Type} {x : Call σ α} {f : α → Call σ β} : P x → (∀ a, P (f a)) → P (x >>= f)

/-- A property that the steps have which do what a frame allows, and that putting calls together
keeps. -/
structure Stepwise (F : Frame) (P : {α : Type} → Call σ α → Prop) : Prop extends Sequential P where
  store : P store
  change {f : Store → Except BucketError Store} :
    (∀ s s', f s = .ok s' → F.holds s s') → P (change f)
  atomically {α : Type} {x : Call σ α} : P x → P (atomically x)

/-! ## Apart from the store -/

namespace Sequential

variable {α β R : Type} {P : {α : Type} → Call σ α → Prop} (hP : Sequential P)

include hP

/-- A call that fails first if something is wrong. -/
theorem guarded {p : Prop} [Decidable p] {error : BucketError} {x : Call σ β} (hx : P x) :
    P (if p then Call.fail error >>= fun _ : α => x else x) := by
  split
  · exact hP.bind (hP.fail error) fun _ => hx
  · exact hx

theorem lift {ε : Type} (wrap : ε → BucketError) (r : Except ε α) :
    P (lift wrap r : Call σ α) := by
  cases r with
  | ok value => exact hP.pure value
  | error error => exact hP.fail (wrap error)

theorem lookEach (l : List β) : P (lookEach l : Call σ Unit) := by
  induction l with
  | nil => exact hP.pure ()
  | cons _ rest ih => exact hP.bind hP.look fun _ => ih

theorem encode (codec : Codec R) (record : R) : P (encode codec record : Call σ Bytes) :=
  hP.bind (hP.pass .encode) fun _ => hP.lift .codec _

theorem decode (codec : Codec R) (bytes : Bytes) : P (decode codec bytes : Call σ R) :=
  hP.bind (hP.pass .decode) fun _ => hP.lift .codec _

theorem lookupEach (table : OrderedSet Bytes) (found : OrderedMap Bytes (List Bytes))
    (values : List Bytes) : P (Bucket.lookupEach table found values : Call σ _) := by
  induction values generalizing found with
  | nil => exact hP.pure found
  | cons value rest ih =>
    unfold Bucket.lookupEach
    refine hP.bind hP.look fun _ => ?_
    split
    · exact ih found
    · exact hP.bind (hP.lift _ _) fun _ => ih _

theorem logFindings (findings : List IndexIntegrity) :
    P (Bucket.logFindings findings : Call σ Unit) := by
  induction findings with
  | nil => exact hP.pure ()
  | cons finding rest ih =>
    unfold Bucket.logFindings
    split
    · exact ih
    · exact hP.bind (hP.log _) fun _ => ih

section

variable (b : Bucket R)

theorem readEach (stored : OrderedMap Bytes Bytes) (keys : List Bytes) :
    P (b.readEach stored keys : Call σ (List (Option R))) := by
  induction keys with
  | nil => exact hP.pure []
  | cons key rest ih =>
    unfold Bucket.readEach
    refine hP.bind hP.look fun _ => ?_
    split
    · exact hP.bind ih fun _ => hP.pure _
    · exact hP.bind (hP.decode _ _) fun _ => hP.bind ih fun _ => hP.pure _

theorem decodeEach (rows : List (Bytes × Bytes)) : P (b.decodeEach rows : Call σ (List R)) := by
  induction rows with
  | nil => exact hP.pure []
  | cons row rest ih =>
    unfold Bucket.decodeEach
    exact hP.bind hP.look fun _ => hP.bind (hP.decode _ _) fun _ => hP.bind ih fun _ => hP.pure _

end

variable [Record R]

theorem entriesOf (record : R) (index : String) :
    P (entriesOf record index : Call σ (OrderedSet Bytes)) :=
  hP.bind (hP.pass .index) fun _ => hP.lift .oversized _

theorem collectEntries (index : String) (entries : OrderedSet Bytes) (records : List R) :
    P (Bucket.collectEntries index entries records : Call σ _) := by
  induction records generalizing entries with
  | nil => exact hP.pure entries
  | cons record rest ih => exact hP.bind (hP.entriesOf _ _) fun _ => ih _

theorem entriesByIndex (records : List R) (indices : List String) :
    P (Bucket.entriesByIndex records indices : Call σ _) := by
  induction indices with
  | nil => exact hP.pure []
  | cons index rest ih =>
    exact hP.bind (hP.collectEntries _ _ _) fun _ => hP.bind ih fun _ => hP.pure _

theorem expectRecord (record : R) (expected : Bucket.Expected) (indices : List String) :
    P (Bucket.expectRecord record expected indices : Call σ Bucket.Expected) := by
  induction indices generalizing expected with
  | nil => exact hP.pure expected
  | cons index rest ih => exact hP.bind (hP.entriesOf _ _) fun _ => ih _

theorem expectEach (b : Bucket R) (expected : Bucket.Expected) (rows : List (Bytes × Bytes)) :
    P (b.expectEach expected rows : Call σ Bucket.Expected) := by
  induction rows generalizing expected with
  | nil => exact hP.pure expected
  | cons row rest ih =>
    unfold Bucket.expectEach
    exact hP.bind hP.look fun _ => hP.bind (hP.decode _ _) fun _ =>
      hP.bind (hP.expectRecord _ _ _) fun _ => ih _

end Sequential

namespace Stepwise

variable {α β R : Type} {F : Frame} {P : {α : Type} → Call σ α → Prop}

section

variable (hP : Stepwise F P)

include hP

/-! ## Tables -/

theorem edit {f : Store → Store} (h : ∀ s : Store, F.holds s (f s)) : P (edit f) := by
  rw [edit_eq_change]
  refine hP.change fun s s' hs => ?_
  obtain rfl := Except.ok.inj hs
  exact h s

theorem openTable {kind : TableKind} {name : String}
    (h : ∀ s : Store, s.OfKind kind name → F.holds s (s.opened kind name)) :
    P (openTable kind name) := by
  refine hP.change fun s s' hs => ?_
  have hensure := of_mapError_ok hs
  have hkind := Store.ofKind_of_ensure hensure
  rw [Store.ensure_of_kind hkind] at hensure
  cases hensure
  exact h s hkind

/-- Opening indices changes nothing, so every frame allows it. -/
theorem openIndices (indices : List String) : P (openIndices indices : Call σ Unit) := by
  induction indices with
  | nil => exact hP.pure ()
  | cons index rest ih =>
    refine hP.bind (hP.change fun s s' hs => ?_) fun _ => ih
    exact Frame.of_eq (Store.of_openIndex hs).2

theorem rows (name : String) : P (rows name : Call σ (OrderedMap Bytes Bytes)) :=
  hP.bind hP.store fun _ => hP.lift .table _

theorem addEntries {indices : List String} (hF : F.Files indices) {index : String}
    (hindex : index ∈ indices) (entries : List Bytes) :
    P (addEntries index entries : Call σ Nat) :=
  hP.bind (hP.edit fun s => hF.putEntries hindex s entries) fun _ => hP.pure _

theorem removeEntries {indices : List String} (hF : F.Files indices) {index : String}
    (hindex : index ∈ indices) (entries : List Bytes) :
    P (removeEntries index entries : Call σ Nat) :=
  hP.bind hP.store fun _ => hP.bind (hP.edit fun s => hF.eraseEntries hindex s entries)
    fun _ => hP.pure _

section

variable [Record R] {indices : List String}

theorem fileRecord (hF : F.Files indices) (record : R) {filed : List String}
    (hfiled : ∀ index ∈ filed, index ∈ indices) :
    P (fileRecord record filed : Call σ Nat) := by
  induction filed with
  | nil => exact hP.pure 0
  | cons index rest ih =>
    obtain ⟨hindex, hrest⟩ := List.forall_mem_cons.mp hfiled
    exact hP.bind (hP.entriesOf _ _) fun _ => hP.bind (hP.addEntries hF hindex _) fun _ =>
      hP.bind (ih hrest) fun _ => hP.pure _

theorem unfileRecord (hF : F.Files indices) (record : R) {filed : List String}
    (hfiled : ∀ index ∈ filed, index ∈ indices) :
    P (unfileRecord record filed : Call σ Nat) := by
  induction filed with
  | nil => exact hP.pure 0
  | cons index rest ih =>
    obtain ⟨hindex, hrest⟩ := List.forall_mem_cons.mp hfiled
    exact hP.bind (hP.entriesOf _ _) fun _ => hP.bind (hP.removeEntries hF hindex _) fun _ =>
      hP.bind (ih hrest) fun _ => hP.pure _

theorem refile (hF : F.Files indices) (codec : Codec R) (rows : List (Bytes × Bytes)) :
    P (refile codec indices rows : Call σ Unit) := by
  induction rows with
  | nil => exact hP.pure ()
  | cons row rest ih =>
    obtain ⟨key, bytes⟩ := row
    exact hP.bind hP.look fun _ => hP.bind (hP.decode codec bytes) fun record =>
      hP.guarded (hP.bind (hP.fileRecord hF record fun _ h => h) fun _ => ih)

end

/-! ## Reading a bucket -/

section

variable (b : Bucket R)

theorem read (keys : List Bytes) : P (b.read keys : Call σ (List (Option R))) :=
  hP.bind hP.look fun _ => hP.bind (hP.rows _) fun stored => hP.readEach b stored keys

theorem readRaw (key : Bytes) : P (b.readRaw key : Call σ (Option Bytes)) :=
  hP.bind (hP.rows _) fun _ => hP.pure _

theorem size : P (b.size : Call σ Nat) :=
  hP.bind (hP.rows _) fun _ => hP.pure _

theorem isEmpty : P (b.isEmpty : Call σ Bool) :=
  hP.bind (hP.size b) fun _ => hP.pure _

theorem contains (key : Bytes) : P (b.contains key : Call σ Bool) :=
  hP.bind (hP.rows _) fun _ => hP.pure _

theorem list (offset : Nat) (limit : Option Nat) :
    P (b.list offset limit : Call σ (List R × Nat)) :=
  hP.bind hP.look fun _ => hP.bind (hP.rows _) fun _ => hP.bind (hP.lookEach _) fun _ =>
    hP.bind (hP.decodeEach b _) fun _ => hP.pure _

theorem indexTable (index : String) : P (Bucket.indexTable index : Call σ _) := by
  refine hP.bind hP.store fun s => ?_
  split
  · exact hP.pure _
  · exact hP.bind (hP.log _) fun _ => hP.fail _
  · exact hP.fail _

theorem readIndex (index : String) (values : List Bytes) :
    P (b.readIndex index values : Call σ _) :=
  hP.guarded (hP.bind hP.look fun _ => hP.bind (hP.indexTable index) fun table =>
    hP.lookupEach table .empty values)

theorem compareIndex (index : String) (expected : OrderedSet Bytes) :
    P (Bucket.compareIndex index expected : Call σ IndexIntegrity) := by
  refine hP.bind hP.store fun s => ?_
  split
  · exact hP.pure _
  · exact hP.fail _
  · exact hP.bind (hP.lookEach _) fun _ => hP.pure _

theorem compareEach (expected : Bucket.Expected) (indices : List String) :
    P (Bucket.compareEach expected indices : Call σ (List IndexIntegrity)) := by
  induction indices with
  | nil => exact hP.pure []
  | cons index rest ih =>
    exact hP.bind (hP.compareIndex _ _) fun _ => hP.bind ih fun _ => hP.pure _

theorem verify [Record R] : P (b.verify : Call σ IntegrityReport) :=
  hP.bind hP.look fun _ => hP.bind (hP.rows _) fun _ => hP.bind (hP.expectEach b _ _) fun _ =>
    hP.bind (hP.compareEach _ _) fun _ => hP.bind (hP.logFindings _) fun _ => hP.pure _

end

/-! ## Changing a bucket -/

/-- A transaction whose end is logged. -/
theorem logged {x : Call σ α} (hx : P x) (event : α → Event) :
    P (do
      Call.look
      let a ← Call.atomically x
      Call.log (event a) : Call σ Unit) :=
  hP.bind hP.look fun _ => hP.bind (hP.atomically hx) fun _ => hP.log _

/-- A call on the open tables of a bucket that looks at the token last. -/
theorem openLooked {config : BucketConfig} (hF : F.Edits config) {x : Call σ α} (hx : P x) :
    P (do
      Call.openTable .primary config.name
      Call.openIndices config.indices
      let a ← x
      Call.look
      return a : Call σ α) :=
  hP.bind (hP.openTable hF.opened) fun _ => hP.bind (hP.openIndices _) fun _ =>
    hP.bind hx fun _ => hP.bind hP.look fun _ => hP.pure _

section

variable [Record R] (b : Bucket R)

theorem insertOne (hF : F.Edits b.config) (record : R) : P (b.insertOne record : Call σ Nat) :=
  hP.bind hP.look fun _ => hP.guarded (hP.bind (hP.rows _) fun _ => hP.guarded
    (hP.bind (hP.encode _ _) fun bytes => hP.bind (hP.edit fun s => hF.putRow s _ bytes) fun _ =>
      hP.fileRecord hF.files _ fun _ h => h))

theorem insertEach (hF : F.Edits b.config) (records : List R) :
    P (b.insertEach records : Call σ Nat) := by
  induction records with
  | nil => exact hP.pure 0
  | cons record rest ih =>
    exact hP.bind (hP.insertOne b hF record) fun _ => hP.bind ih fun _ => hP.pure _

theorem insert (hF : F.Edits b.config) (records : List R) :
    P (b.insert records : Call σ Unit) :=
  hP.logged (hP.openLooked hF (hP.insertEach b hF records)) _

theorem fetchEach (seen : List Bytes) (records : List R) :
    P (b.fetchEach seen records : Call σ (List R)) := by
  induction records generalizing seen with
  | nil => exact hP.pure []
  | cons record rest ih =>
    refine hP.bind hP.look fun _ => hP.guarded (hP.bind (hP.rows _) fun stored => ?_)
    split
    · exact hP.fail _
    · exact hP.bind (hP.decode _ _) fun _ => hP.bind (ih _) fun _ => hP.pure _

omit [Record R] in
theorem refileEntries {indices : List String} (hF : F.Files indices) {refiled : List String}
    (hrefiled : ∀ index ∈ refiled, index ∈ indices) (befores afters : List (OrderedSet Bytes)) :
    P (Bucket.refileEntries refiled befores afters : Call σ _) := by
  induction refiled generalizing befores afters with
  | nil => exact hP.pure _
  | cons index rest ih =>
    obtain ⟨hindex, hrest⟩ := List.forall_mem_cons.mp hrefiled
    cases befores with
    | nil => exact hP.pure _
    | cons before befores =>
      cases afters with
      | nil => exact hP.pure _
      | cons after afters =>
        exact hP.bind (hP.removeEntries hF hindex _) fun _ =>
          hP.bind (hP.addEntries hF hindex _) fun _ =>
            hP.bind (ih hrest _ _) fun _ => hP.pure _

theorem storeEach (hF : ∀ s key bytes, F.holds s (s.putRow b.name key bytes)) (records : List R) :
    P (b.storeEach records : Call σ Unit) := by
  induction records with
  | nil => exact hP.pure ()
  | cons record rest ih =>
    exact hP.bind (hP.encode _ _) fun bytes => hP.bind (hP.edit fun s => hF s _ bytes) fun _ => ih

theorem replace (hF : F.Edits b.config) (stored : List R) (before : List (OrderedSet Bytes))
    (mutated : List R) : P (b.replace stored before mutated : Call σ (Nat × Nat)) := by
  have hrefile := hP.bind (hP.entriesByIndex mutated b.indices) fun after =>
    hP.bind (hP.openTable hF.opened) fun _ => hP.bind (hP.openIndices b.indices) fun _ =>
      hP.bind (hP.refileEntries hF.files (fun _ h => h) before after) fun counts =>
        hP.bind (hP.storeEach b hF.putRow mutated) fun _ =>
          hP.bind hP.look fun _ => hP.pure counts
  unfold Bucket.replace
  split
  · exact hP.bind (hP.fail _) fun _ => hrefile
  · exact hrefile

theorem update (hF : F.Edits b.config) (records : List R) {mutator : Mutator σ R}
    (hmutate : ∀ stored, P (Bucket.mutate mutator stored)) : P (b.update records mutator) := by
  rw [Bucket.update_eq]
  exact hP.logged (hP.bind (hP.openTable hF.opened) fun _ =>
    hP.bind (hP.fetchEach b _ _) fun stored => hP.bind (hP.entriesByIndex _ _) fun before =>
      hP.bind hP.look fun _ => hP.bind (hmutate stored) fun mutated =>
        hP.replace b hF stored before mutated)
    fun counts => .updated counts.1 counts.2

theorem deleteOne (hF : F.Edits b.config) (key : Bytes) :
    P (b.deleteOne key : Call σ (Nat × Nat)) := by
  refine hP.bind hP.look fun _ => hP.bind (hP.rows _) fun stored => ?_
  split
  · exact hP.pure _
  · exact hP.bind (hP.edit fun s => hF.eraseRow s key) fun _ => hP.bind (hP.decode _ _) fun _ =>
      hP.bind (hP.unfileRecord hF.files _ fun _ h => h) fun _ => hP.pure _

theorem deleteEach (hF : F.Edits b.config) (keys : List Bytes) :
    P (b.deleteEach keys : Call σ (Nat × Nat)) := by
  induction keys with
  | nil => exact hP.pure _
  | cons key rest ih =>
    exact hP.bind (hP.deleteOne b hF key) fun _ => hP.bind ih fun _ => hP.pure _

theorem delete (hF : F.Edits b.config) (keys : List Bytes) : P (b.delete keys : Call σ Unit) :=
  hP.logged (hP.openLooked hF (hP.deleteEach b hF keys)) fun counts => .deleted counts.1 counts.2

/-! ## All calls -/

/-- A rebuild drops tables before it does what most frames allow, so a reindex is asked for. -/
theorem write (hF : F.Edits b.config) (hreindex : P (b.reindex : Call σ Unit)) {w : Write σ R}
    (hw : w.Mutators fun mutator => ∀ stored, P (Bucket.mutate mutator stored)) :
    P (w.call b) := by
  cases w with
  | insert records => exact hP.insert b hF records
  | update records mutator => exact hP.update b hF records hw
  | delete keys => exact hP.delete b hF keys
  | reindex => exact hreindex

theorem operation (hF : F.Edits b.config) (hreindex : P (b.reindex : Call σ Unit))
    {op : Operation σ R α}
    (hop : op.Mutators fun mutator => ∀ stored, P (Bucket.mutate mutator stored)) :
    P (op.call b) := by
  cases op with
  | write w => exact hP.write b hF hreindex hop
  | read keys => exact hP.read b keys
  | readRaw key => exact hP.readRaw b key
  | list offset limit => exact hP.list b offset limit
  | readIndex index values => exact hP.readIndex b index values
  | verify => exact hP.verify b

end

end

/-! ## Rebuilding -/

section

variable (hP : Stepwise .any P)

include hP

theorem createIndices (indices : List String) : P (createIndices indices : Call σ Unit) := by
  induction indices with
  | nil => exact hP.pure ()
  | cons index rest ih => exact hP.bind (hP.openTable fun _ _ => trivial) fun _ => ih

variable [Record R]

theorem rebuild (primary : String) (codec : Codec R) (indices : List String) :
    P (rebuild primary codec indices : Call σ Nat) :=
  hP.bind (hP.edit fun _ => trivial) fun _ => hP.bind (hP.openTable fun _ _ => trivial) fun _ =>
    hP.bind (hP.createIndices _) fun _ => hP.bind (hP.rows _) fun _ =>
      hP.bind (hP.refile (Frame.any_edits ⟨primary, indices⟩).files _ _) fun _ => hP.pure _

theorem reindex (b : Bucket R) : P (b.reindex : Call σ Unit) :=
  hP.logged (hP.bind (hP.rebuild _ _ _) fun _ => hP.bind hP.look fun _ => hP.pure _) _

end

end Stepwise

end Call

end IndexedStore
