import IndexedStore.Error.Bucket

set_option autoImplicit false

/-! # Index descriptors

The metadata table of a bucket holds one row, the descriptor of the indices it was last opened with,
under `Descriptor.rowKey`. A descriptor carries the version of its own format; one of another
version is not read, whatever else it says. -/

namespace IndexedStore

/-- The indices a bucket was opened with. -/
structure Descriptor where
  /-- The version of the format. -/
  formatVersion : UInt16
  /-- The indices, in configuration order. -/
  indices : List String
deriving DecidableEq, Repr

instance : Json.Form Descriptor where
  write descriptor := .object
    [Json.member "format_version" descriptor.formatVersion,
      Json.member "indices" descriptor.indices]
  read? document :=
    match document with
    | .array [version, indices] => do
      return ⟨← Json.Form.read? version, ← Json.Form.read? indices⟩
    | document => do
      let members ← Json.members? document
      return ⟨← Json.field? "format_version" members, ← Json.field? "indices" members⟩

instance : Binary.Form Descriptor where
  write descriptor :=
    Binary.Form.write descriptor.formatVersion ++ Binary.Form.write descriptor.indices
  take bytes := do
    let (version, rest) ← Binary.Form.take bytes
    let (indices, rest) ← Binary.Form.take rest
    return (⟨version, indices⟩, rest)

namespace Descriptor

/-- The version that is written and read. -/
def currentVersion : UInt16 := 1

/-- What the descriptor stands under in a metadata table. -/
def rowKey : String := "indices"

/-- The descriptor of some indices. -/
def ofIndices (indices : List String) : Descriptor := ⟨currentVersion, indices⟩

/-- The stored form. -/
def toBytes (descriptor : Descriptor) : Bytes :=
  Binary.encode descriptor

/-- The descriptor of a stored form, if it has the current version. -/
def ofBytes (bytes : Bytes) : Except BucketError Descriptor :=
  match Binary.decode bytes with
  | .error fault => .error (.codec (.decode fault))
  | .ok descriptor =>
    if descriptor.formatVersion = currentVersion then .ok descriptor
    else .error (.corrupted (.version descriptor.formatVersion currentVersion))

end Descriptor

end IndexedStore
