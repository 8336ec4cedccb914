import IndexedStore.Bucket.Basic
import IndexedStore.Index

set_option autoImplicit false

/-! # Reading a bucket

Calls that leave the store as it is. They fail if the primary table of the bucket is absent; reading
an index fails if the index is not active or its table is absent. -/

namespace IndexedStore.Bucket

open Call

variable {R σ : Type} [Record R] (b : Bucket R)

/-! ## Records -/

/-- The records of keys among rows, in the order of the keys. -/
def readEach (stored : OrderedMap Bytes Bytes) : List Bytes → Call σ (List (Option R))
  | [] => pure []
  | key :: rest => do
    look
    match stored.get? key with
    | none => return none :: (← readEach stored rest)
    | some bytes =>
      let record ← decode b.codec bytes
      return some record :: (← readEach stored rest)

/-- The records of keys, in the order of the keys. -/
def read (keys : List Bytes) : Call σ (List (Option R)) := do
  look
  b.readEach (← rows b.name) keys

/-- The stored bytes of a record. -/
def readRaw (key : Bytes) : Call σ (Option Bytes) :=
  return (← rows b.name).get? key

/-- How many records are stored. -/
def size : Call σ Nat :=
  return (← rows b.name).size

/-- Whether no record is stored. -/
def isEmpty : Call σ Bool :=
  return (← b.size) = 0

/-- Whether a record is stored under a key. -/
def contains (key : Bytes) : Call σ Bool :=
  return (← rows b.name).contains key

/-- The records of rows. -/
def decodeEach : List (Bytes × Bytes) → Call σ (List R)
  | [] => pure []
  | (_, bytes) :: rest => do
    look
    let record ← decode b.codec bytes
    return record :: (← decodeEach rest)

/-- The records in key order from position `offset` on, at most `limit` of them, and how many are
stored altogether. Records before the offset are not decoded. -/
def list (offset : Nat) (limit : Option Nat) : Call σ (List R × Nat) := do
  look
  let stored ← rows b.name
  lookEach (stored.toList.take offset)
  let rest := stored.toList.drop offset
  let records ← b.decodeEach (match limit with | none => rest | some limit => rest.take limit)
  return (records, stored.size)

/-! ## Indices -/

/-- The keys filed under values in a table, besides those `found`. -/
def lookupEach (table : OrderedSet Bytes) (found : OrderedMap Bytes (List Bytes)) :
    List Bytes → Call σ (OrderedMap Bytes (List Bytes))
  | [] => pure found
  | value :: rest => do
    look
    if found.contains value then lookupEach table found rest
    else
      let keys ← lift .oversized (Index.keysOf table value)
      lookupEach table (found.insert value keys) rest

/-- The table of an index. -/
def indexTable (index : String) : Call σ (OrderedSet Bytes) := do
  match (← store).readIndex index with
  | .ok table => return table
  | .error (.absent _) =>
    log .indexMissing
    fail (.missingIndex index)
  | .error error => fail (.table error)

/-- The keys of the records that have each of the values in an index, ascending. -/
def readIndex (index : String) (values : List Bytes) :
    Call σ (OrderedMap Bytes (List Bytes)) := do
  if !b.indices.contains index then fail (.unknownIndex index b.name)
  look
  lookupEach (← indexTable index) .empty values

end IndexedStore.Bucket
