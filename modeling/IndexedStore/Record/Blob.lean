import IndexedStore.Binary
import IndexedStore.Json.Form
import IndexedStore.Record.Basic

set_option autoImplicit false

/-! # Blobs

A record whose key and index values are arbitrary bytes: it holds a list of values per field, and a
field is an index of its name. -/

namespace IndexedStore

/-- A record of raw bytes. -/
structure Blob where
  /-- What the blob is stored under. -/
  key : Bytes
  /-- The values in each field. -/
  fields : OrderedMap String (List Bytes)
deriving DecidableEq

instance : Record Blob where
  key blob := blob.key
  indexValues blob index := (blob.fields.get? index).getD []

instance : Json.Form Blob where
  write blob := .object [Json.member "key" blob.key, Json.member "fields" blob.fields]
  read? document :=
    match document with
    | .array [key, fields] => do return ⟨← Json.Form.read? key, ← Json.Form.read? fields⟩
    | document => do
      let members ← Json.members? document
      return ⟨← Json.field? "key" members, ← Json.field? "fields" members⟩

instance : Binary.Form Blob where
  write blob := Binary.Form.write blob.key ++ Binary.Form.write blob.fields
  take bytes := do
    let (key, rest) ← Binary.Form.take bytes
    let (fields, rest) ← Binary.Form.take rest
    return (⟨key, fields⟩, rest)

end IndexedStore
