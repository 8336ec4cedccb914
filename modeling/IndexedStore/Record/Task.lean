import IndexedStore.Binary
import IndexedStore.Json.Form
import IndexedStore.Record.Basic

set_option autoImplicit false

/-! # Tasks

A record with text fields, numbers and an optional reference, each of which can be indexed. -/

namespace IndexedStore

/-- A unit of work. -/
structure Task where
  /-- What the task is stored under. -/
  id : String
  status : String
  tags : List String
  /-- How often it was tried. -/
  attempts : UInt32
  /-- The number of the task it belongs to. -/
  parent : Option UInt64
deriving DecidableEq, Repr

instance : Record Task where
  key task := Utf8.encode task.id
  indexValues task index :=
    if index = "id" then [Utf8.encode task.id]
    else if index = "status" then [Utf8.encode task.status]
    else if index = "tags" then task.tags.map Utf8.encode
    else if index = "attempts" then [Decimal.digits task.attempts.toNat]
    else if index = "parent" then task.parent.toList.map Bytes.ofWord
    else []

instance : Json.Form Task where
  write task := .object
    [Json.member "id" task.id, Json.member "status" task.status, Json.member "tags" task.tags,
      Json.member "attempts" task.attempts, Json.member "parent" task.parent]
  read? document :=
    match document with
    | .array [id, status, tags, attempts, parent] => do
      return ⟨← Json.Form.read? id, ← Json.Form.read? status, ← Json.Form.read? tags,
        ← Json.Form.read? attempts, ← Json.Form.read? parent⟩
    | document => do
      let members ← Json.members? document
      return ⟨← Json.field? "id" members, ← Json.field? "status" members,
        ← Json.field? "tags" members, ← Json.field? "attempts" members,
        ← Json.fieldOr? none "parent" members⟩

instance : Binary.Form Task where
  write task :=
    Binary.Form.write task.id ++ Binary.Form.write task.status ++ Binary.Form.write task.tags
      ++ Binary.Form.write task.attempts ++ Binary.Form.write task.parent
  take bytes := do
    let (id, rest) ← Binary.Form.take bytes
    let (status, rest) ← Binary.Form.take rest
    let (tags, rest) ← Binary.Form.take rest
    let (attempts, rest) ← Binary.Form.take rest
    let (parent, rest) ← Binary.Form.take rest
    return (⟨id, status, tags, attempts, parent⟩, rest)

end IndexedStore
