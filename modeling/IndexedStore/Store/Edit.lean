import IndexedStore.Store

set_option autoImplicit false

/-! # Edits from outside

Another program may share the store with the library. It edits a table as it likes, as long as it
opens it as the kind it has: an edit puts one row, removes one row or drops the table, and answers
whether the row or the table was there before. -/

namespace IndexedStore

/-- What a row stands under in a table of each kind. -/
inductive RowKey where
  /-- A key of a primary table. -/
  | primary (key : Bytes)
  /-- An entry of an index table. -/
  | index (entry : Bytes)
  /-- A text of a metadata table. -/
  | metadata (key : String)
deriving DecidableEq, Repr

/-- The kind of table a row is for. -/
def RowKey.kind : RowKey → TableKind
  | primary _ => .primary
  | index _ => .index
  | metadata _ => .metadata

/-- An edit of one table. -/
inductive TableEdit where
  /-- Put a row; an index entry has no value. -/
  | put (table : String) (key : RowKey) (value : Bytes)
  | remove (table : String) (key : RowKey)
  | drop (table : String)
deriving DecidableEq, Repr

namespace Store

/-- Whether a table has a row. -/
def hasRow (s : Store) (name : String) (key : RowKey) : Bool :=
  match s.table? name, key with
  | some (.primary rows), .primary key => rows.contains key
  | some (.index entries), .index entry => entries.contains entry
  | some (.metadata rows), .metadata key => rows.contains key
  | _, _ => false

/-- Carry out an edit, and say whether what it is about was there before. -/
def apply (s : Store) : TableEdit → Except TableError (Bool × Store)
  | .put table key value => do
    let s ← s.ensure key.kind table
    return (s.hasRow table key,
      match key with
      | .primary key => s.putRow table key value
      | .index entry => s.putEntry table entry
      | .metadata key => s.putMetadata table key value)
  | .remove table key => do
    let s ← s.ensure key.kind table
    return (s.hasRow table key,
      match key with
      | .primary key => s.eraseRow table key
      | .index entry => s.eraseEntry table entry
      | .metadata key => s.eraseMetadata table key)
  | .drop table => return ((s.table? table).isSome, s.drop table)

end Store

end IndexedStore
