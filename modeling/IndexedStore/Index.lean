import IndexedStore.Call
import IndexedStore.Record.Basic

set_option autoImplicit false

/-! # Indices

An index files each record under its values: one entry per value, the composite key of the value and
the record's key. Here is which entries a record calls for (`Index.entries`), which keys a table
holds for a value (`Index.keysOf`), and how tables are filled from scratch (`rebuild`). -/

namespace IndexedStore

variable {R σ : Type} [Record R]

namespace Index

/-- The entries that a record calls for in an index. -/
def entries (record : R) (index : String) : Except Oversized (OrderedSet Bytes) :=
  ((Record.indexValues record index).mapM fun value =>
    CompositeKey.encode value (Record.key record)).map OrderedMap.setOf

/-- The record keys that a table holds for a value, ascending. The entries of a value stand
together, from the first that is not below its stem to the last that begins with it. -/
def keysOf (table : OrderedSet Bytes) (value : Bytes) : Except Oversized (List Bytes) :=
  (CompositeKey.stem value).map fun stem =>
    ((table.keys.dropWhile fun entry => compare entry stem = .lt).takeWhile stem.isPrefixOf).map
      (·.drop stem.length)

end Index

/-- Open the table of an index for writing. A missing one is not created, for an empty table in its
place would hide records. -/
def Store.openIndex (s : Store) (index : String) : Except BucketError Store :=
  if (s.table? index).isNone then .error (.missingIndex index)
  else (s.ensure .index index).mapError .table

namespace Call

/-! ## Tables of a bucket -/

/-- Open a table for writing as a kind, which creates it if there is none. -/
def openTable (kind : TableKind) (name : String) : Call σ Unit :=
  change fun s => (s.ensure kind name).mapError .table

/-- The rows of a primary table. -/
def rows (name : String) : Call σ (OrderedMap Bytes Bytes) := do
  lift .table ((← store).readPrimary name)

/-- Open the tables of indices for writing. -/
def openIndices : List String → Call σ Unit
  | [] => pure ()
  | index :: rest => do
    change (·.openIndex index)
    openIndices rest

/-- Ask a record for its entries in an index. -/
def entriesOf (record : R) (index : String) : Call σ (OrderedSet Bytes) := do
  pass .index
  lift .oversized (Index.entries record index)

/-- Put entries into an index table, and count them. -/
def addEntries (index : String) (entries : List Bytes) : Call σ Nat := do
  edit (·.putEntries index entries)
  return entries.length

/-- Take distinct entries out of an index table, and count those that were there. -/
def removeEntries (index : String) (entries : List Bytes) : Call σ Nat := do
  let present := entries.filter ((← store).hasEntry index)
  edit (·.eraseEntries index entries)
  return present.length

/-- File a record in each of the indices, and count the entries. -/
def fileRecord (record : R) : List String → Call σ Nat
  | [] => pure 0
  | index :: rest => do
    let added ← addEntries index (← entriesOf record index).keys
    return added + (← fileRecord record rest)

/-- Take a record out of each of the indices, and count the entries that were there. -/
def unfileRecord (record : R) : List String → Call σ Nat
  | [] => pure 0
  | index :: rest => do
    let removed ← removeEntries index (← entriesOf record index).keys
    return removed + (← unfileRecord record rest)

/-! ## Rebuilding -/

/-- Drop the tables of indices. -/
def dropIndices (indices : List String) : Call σ Unit :=
  edit fun s => indices.foldl Store.drop s

/-- Create the tables of indices. -/
def createIndices : List String → Call σ Unit
  | [] => pure ()
  | index :: rest => do
    openTable .index index
    createIndices rest

/-- File every stored record in each of the indices. A record must report the key it is stored
under, for a record filed under another key would be found where it is not. -/
def refile (codec : Codec R) (indices : List String) : List (Bytes × Bytes) → Call σ Unit
  | [] => pure ()
  | (key, bytes) :: rest => do
    look
    let record ← decode codec bytes
    if Record.key record ≠ key then fail (.corrupted (.misfiled key (Record.key record)))
    let _ ← fileRecord record indices
    refile codec indices rest

/-- Empty the tables of indices and fill them from the stored records. The number of records. -/
def rebuild (primary : String) (codec : Codec R) (indices : List String) : Call σ Nat := do
  dropIndices indices
  openTable .primary primary
  createIndices indices
  let stored ← rows primary
  refile codec indices stored.toList
  return stored.size

end Call

end IndexedStore
