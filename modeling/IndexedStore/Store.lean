import IndexedStore.Bytes
import IndexedStore.OrderedMap

set_option autoImplicit false

/-! # Stores

A store is a family of named tables, each of one of three kinds: primary tables hold the records of
a bucket by key, index tables hold composite keys and nothing else, and metadata tables hold bytes
under a text. The whole store is one value, so a transaction is a function from stores to stores,
and one that fails leaves nothing behind.

A table is opened as a kind. Opening for reading fails if it is absent, opening for writing creates
it; both fail if it exists as another kind. Dropping asks for no kind: it takes out whatever table
has the name. -/

namespace IndexedStore

/-- The kinds of tables. -/
inductive TableKind where
  | primary
  | index
  /-- Bytes under a text. -/
  | metadata
deriving DecidableEq, Repr

/-- The types of the key and the value of a kind of tables. -/
def TableKind.describe : TableKind → String
  | primary => "Table<&[u8], &[u8]>"
  | index => "Table<&[u8], ()>"
  | metadata => "Table<&str, &[u8]>"

/-- A table. -/
inductive Table where
  | primary (rows : OrderedMap Bytes Bytes)
  | index (entries : OrderedSet Bytes)
  /-- Bytes under a text. -/
  | metadata (rows : OrderedMap String Bytes)
deriving DecidableEq

namespace Table

/-- The kind of a table. -/
def kind : Table → TableKind
  | primary _ => .primary
  | index _ => .index
  | metadata _ => .metadata

/-- The table of a kind without rows. -/
def empty : TableKind → Table
  | .primary => primary .empty
  | .index => index .empty
  | .metadata => metadata .empty

end Table

/-- Why a table was not opened. -/
inductive TableError where
  /-- There is no table of the name. -/
  | absent (name : String)
  /-- The table of the name is of another kind. -/
  | otherKind (name : String) (actual : TableKind)
deriving DecidableEq, Repr

/-- The error in words. -/
def TableError.message : TableError → String
  | absent name => "Table '" ++ name ++ "' does not exist"
  | otherKind name actual => name ++ " is of type " ++ actual.describe

/-- A family of named tables. -/
structure Store where
  /-- The tables by name. -/
  tables : OrderedMap String Table
deriving DecidableEq

namespace Store

/-- The store without tables. -/
def empty : Store := ⟨.empty⟩

instance : Inhabited Store := ⟨empty⟩

/-- The table of a name. -/
def table? (s : Store) (name : String) : Option Table :=
  s.tables.get? name

/-- The names of the tables, ascending. -/
def names (s : Store) : List String :=
  s.tables.keys

/-- Set the table of a name. -/
def put (s : Store) (name : String) (t : Table) : Store :=
  ⟨s.tables.insert name t⟩

/-- The store without the table of a name, of whatever kind it is. -/
def drop (s : Store) (name : String) : Store :=
  ⟨s.tables.erase name⟩

@[simp] theorem table?_empty (name : String) : empty.table? name = none := rfl

theorem table?_put (s : Store) (name : String) (t : Table) (other : String) :
    (s.put name t).table? other = if other = name then some t else s.table? other :=
  OrderedMap.get?_insert s.tables name t other

theorem table?_drop (s : Store) (name other : String) :
    (s.drop name).table? other = if other = name then none else s.table? other :=
  OrderedMap.get?_erase s.tables name other

/-- **A store is determined by its tables.** -/
theorem ext_table? {s t : Store} (h : ∀ name, s.table? name = t.table? name) : s = t := by
  cases s
  cases t
  congr
  exact OrderedMap.ext_get? h

/-! ## Opening -/

/-- The rows of a primary table. -/
def readPrimary (s : Store) (name : String) : Except TableError (OrderedMap Bytes Bytes) :=
  match s.table? name with
  | none => .error (.absent name)
  | some (.primary rows) => .ok rows
  | some t => .error (.otherKind name t.kind)

/-- The entries of an index table. -/
def readIndex (s : Store) (name : String) : Except TableError (OrderedSet Bytes) :=
  match s.table? name with
  | none => .error (.absent name)
  | some (.index entries) => .ok entries
  | some t => .error (.otherKind name t.kind)

/-- The rows of a metadata table. -/
def readMetadata (s : Store) (name : String) : Except TableError (OrderedMap String Bytes) :=
  match s.table? name with
  | none => .error (.absent name)
  | some (.metadata rows) => .ok rows
  | some t => .error (.otherKind name t.kind)

/-- Open a table for writing, which creates it if there is none. -/
def ensure (s : Store) (kind : TableKind) (name : String) : Except TableError Store :=
  match s.table? name with
  | none => .ok (s.put name (.empty kind))
  | some t => if t.kind = kind then .ok s else .error (.otherKind name t.kind)

/-! ## Writing to tables that are open -/

/-- Put a row into a primary table. -/
def putRow (s : Store) (name : String) (key value : Bytes) : Store :=
  match s.table? name with
  | some (.primary rows) => s.put name (.primary (rows.insert key value))
  | _ => s

/-- Take a row out of a primary table. -/
def eraseRow (s : Store) (name : String) (key : Bytes) : Store :=
  match s.table? name with
  | some (.primary rows) => s.put name (.primary (rows.erase key))
  | _ => s

/-- Put an entry into an index table. -/
def putEntry (s : Store) (name : String) (entry : Bytes) : Store :=
  match s.table? name with
  | some (.index entries) => s.put name (.index (entries.insert entry ()))
  | _ => s

/-- Take an entry out of an index table. -/
def eraseEntry (s : Store) (name : String) (entry : Bytes) : Store :=
  match s.table? name with
  | some (.index entries) => s.put name (.index (entries.erase entry))
  | _ => s

/-- Whether an index table holds an entry. -/
def hasEntry (s : Store) (name : String) (entry : Bytes) : Bool :=
  match s.table? name with
  | some (.index entries) => entries.contains entry
  | _ => false

/-- Put several entries into an index table. -/
def putEntries (s : Store) (name : String) (entries : List Bytes) : Store :=
  entries.foldl (fun s entry => s.putEntry name entry) s

/-- Take several entries out of an index table. -/
def eraseEntries (s : Store) (name : String) (entries : List Bytes) : Store :=
  entries.foldl (fun s entry => s.eraseEntry name entry) s

/-- Put bytes under a text into a metadata table. -/
def putMetadata (s : Store) (name key : String) (value : Bytes) : Store :=
  match s.table? name with
  | some (.metadata rows) => s.put name (.metadata (rows.insert key value))
  | _ => s

/-- Take bytes out of a metadata table. -/
def eraseMetadata (s : Store) (name key : String) : Store :=
  match s.table? name with
  | some (.metadata rows) => s.put name (.metadata (rows.erase key))
  | _ => s

end Store

end IndexedStore
