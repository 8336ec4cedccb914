import IndexedStore.Bucket.Basic
import IndexedStore.Index

set_option autoImplicit false

/-! # Changing a bucket

Inserting, updating and deleting take a batch and keep every active index up to date with it. A
batch is one transaction: it is carried out as a whole or not at all. The token is looked at before
each record or key, before a mutator runs and before the transaction ends, never in between.

An update hands the stored copies of the records to a `Mutator`, which may change and reorder them
but not change which keys they have. -/

namespace IndexedStore

/-! ## Mutators -/

/-- A list of `n` records. -/
abbrev Slice (R : Type) (n : Nat) := { records : List R // records.length = n }

/-- All of some records. -/
def Slice.whole {R : Type} (records : List R) : Slice R records.length := ⟨records, rfl⟩

/-- Why a mutator ends without records. -/
inductive MutatorStop where
  /-- It failed, with a text. -/
  | failed (text : String)
  | panicked
deriving DecidableEq, Repr

/-- The caller's part of an update: a computation on the live transaction that changes as many
records as it is handed. -/
abbrev Mutator (σ R : Type) :=
  (n : Nat) → Slice R n → EStateM MutatorStop (Context σ) (Slice R n)

/-- How the end of a mutator ends the call. -/
def MutatorStop.toStop : MutatorStop → Stop
  | failed text => .failed (.mutator text)
  | panicked => .panicked

/-- Whether a key comes before another or is the same. -/
def keyLE (k k' : Bytes) : Bool :=
  compare k k' != .gt

variable {R σ : Type} [Record R]

/-- The keys of records, ascending, as often as they occur. -/
def sortedKeys (records : List R) : List Bytes :=
  (records.map Record.key).mergeSort keyLE

/-- The first place where two lists of keys differ. -/
def firstDifference? : List Bytes → List Bytes → Option (Bytes × Bytes)
  | before :: befores, after :: afters =>
    if before = after then firstDifference? befores afters else some (before, after)
  | _, _ => none

namespace Bucket

open Call

variable (b : Bucket R)

/-! ## Inserting -/

/-- What an empty key is refused for. -/
def emptyKeyReason : String := "record key must not be empty"

/-- Insert one record, and count its entries. -/
def insertOne (record : R) : Call σ Nat := do
  look
  let key := Record.key record
  if key.isEmpty then fail (.invalidKey emptyKeyReason)
  if (← rows b.name).contains key then fail (.keyConflict key)
  let bytes ← encode b.codec record
  edit (·.putRow b.name key bytes)
  fileRecord record b.indices

/-- Insert records in their order, and count their entries. -/
def insertEach : List R → Call σ Nat
  | [] => pure 0
  | record :: rest => do
    let added ← b.insertOne record
    return added + (← insertEach rest)

/-- Insert records. -/
def insert (records : List R) : Call σ Unit := do
  look
  let added ← atomically do
    openTable .primary b.name
    openIndices b.indices
    let added ← b.insertEach records
    look
    return added
  log (.inserted added)

/-! ## Updating -/

/-- The stored copies of records, after those of the keys already `seen`. -/
def fetchEach (seen : List Bytes) : List R → Call σ (List R)
  | [] => pure []
  | record :: rest => do
    look
    let key := Record.key record
    if seen.contains key then fail (.duplicateKey key)
    match (← rows b.name).get? key with
    | none => fail (.unknownKey key)
    | some bytes =>
      let stored ← decode b.codec bytes
      return stored :: (← fetchEach (key :: seen) rest)

/-- All entries that records call for in an index, besides those in `entries`. -/
def collectEntries (index : String) (entries : OrderedSet Bytes) :
    List R → Call σ (OrderedSet Bytes)
  | [] => pure entries
  | record :: rest => do
    let more ← entriesOf record index
    collectEntries index (entries.union more) rest

/-- All entries that records call for, per index. -/
def entriesByIndex (records : List R) : List String → Call σ (List (OrderedSet Bytes))
  | [] => pure []
  | index :: rest => do
    let entries ← collectEntries index .empty records
    return entries :: (← entriesByIndex records rest)

/-- Replace entries in one index table after the other: those that were called for before and are
not any more go, those that were not and are now come. The entries added and removed. -/
def refileEntries : List String → List (OrderedSet Bytes) → List (OrderedSet Bytes) →
    Call σ (Nat × Nat)
  | index :: indices, before :: befores, after :: afters => do
    let removed ← removeEntries index (before.without after)
    let added ← addEntries index (after.without before)
    let (moreAdded, moreRemoved) ← refileEntries indices befores afters
    return (added + moreAdded, removed + moreRemoved)
  | _, _, _ => pure (0, 0)

/-- Store records under their keys. -/
def storeEach : List R → Call σ Unit
  | [] => pure ()
  | record :: rest => do
    let bytes ← encode b.codec record
    edit (·.putRow b.name (Record.key record) bytes)
    storeEach rest

/-- Run a mutator on records. -/
def mutate (mutator : Mutator σ R) (records : List R) : Call σ (List R) := do
  let mutated ← EStateM.adaptExcept MutatorStop.toStop (mutator records.length (.whole records))
  return mutated.val

/-- Replace the stored copies of records by what a mutator makes of them. Only the keys of the given
records count. -/
def update (records : List R) (mutator : Mutator σ R) : Call σ Unit := do
  look
  let (added, removed) ← atomically do
    openTable .primary b.name
    let stored ← b.fetchEach [] records
    let before ← entriesByIndex stored b.indices
    look
    let mutated ← mutate mutator stored
    if let some (old, new) := firstDifference? (sortedKeys stored) (sortedKeys mutated) then
      fail (.keyMutated old new)
    let after ← entriesByIndex mutated b.indices
    openTable .primary b.name
    openIndices b.indices
    let counts ← refileEntries b.indices before after
    b.storeEach mutated
    look
    return counts
  log (.updated added removed)

/-! ## Deleting -/

/-- Delete the record of a key, if there is one; the records and the entries that went. -/
def deleteOne (key : Bytes) : Call σ (Nat × Nat) := do
  look
  match (← rows b.name).get? key with
  | none => return (0, 0)
  | some bytes =>
    edit (·.eraseRow b.name key)
    let record : R ← decode b.codec bytes
    let removed ← unfileRecord record b.indices
    return (1, removed)

/-- Delete the records of keys in their order; the records and the entries that went. -/
def deleteEach : List Bytes → Call σ (Nat × Nat)
  | [] => pure (0, 0)
  | key :: rest => do
    let (deleted, removed) ← b.deleteOne key
    let (moreDeleted, moreRemoved) ← deleteEach rest
    return (deleted + moreDeleted, removed + moreRemoved)

/-- Delete the records of keys. Keys without a record are passed over. -/
def delete (keys : List Bytes) : Call σ Unit := do
  look
  let (deleted, removed) ← atomically do
    openTable .primary b.name
    openIndices b.indices
    let counts ← b.deleteEach keys
    look
    return counts
  log (.deleted deleted removed)

/-! ## Rebuilding -/

/-- Build every active index anew from the stored records. -/
def reindex : Call σ Unit := do
  look
  let records ← atomically do
    let records ← rebuild b.name b.codec b.indices
    look
    return records
  log (.reindexed records b.indices.length)

end Bucket

end IndexedStore
