import IndexedStore.Json.Reader
import IndexedStore.OrderedMap

set_option autoImplicit false

/-! # Values as JSON

`Json.Form α` says how a value of `α` is written as a document and which documents are read as one.
Words read numbers of their own range only; a list is an array; an optional value may be `null`; a
map from names is an object, of whose members with one name the last counts.

A structure is written as an object with its fields in their order. It is read from an object whose
fields stand in any order, at most once each, among members of other names, or from an array that
holds the fields in their order. Each structure's own form says so with `field?` and `fieldOr?`. -/

namespace IndexedStore.Json

/-- How values of a type are written and read as documents. -/
class Form (α : Type) where
  /-- The document of a value. -/
  write : α → Json
  /-- The value that a document stands for. -/
  read? : Json → Option α

/-- The bytes of a value. -/
def encode {α : Type} [Form α] (value : α) : Bytes :=
  (Form.write value).print

/-- The value whose document a text is. -/
def decode? {α : Type} [Form α] (text : Bytes) : Option α :=
  (Json.read? text).bind Form.read?

/-! ## Plain values -/

instance : Form String where
  write := ofText
  read? := text?

instance : Form UInt8 where
  write n := ofNat n.toNat
  read? document := (natural? UInt8.size document).map UInt8.ofNat

instance : Form UInt16 where
  write n := ofNat n.toNat
  read? document := (natural? UInt16.size document).map UInt16.ofNat

instance : Form UInt32 where
  write n := ofNat n.toNat
  read? document := (natural? UInt32.size document).map UInt32.ofNat

instance : Form UInt64 where
  write n := ofNat n.toNat
  read? document := (natural? UInt64.size document).map UInt64.ofNat

/-! ## Compound values -/

variable {α : Type} [Form α]

instance : Form (List α) where
  write values := .array (values.map Form.write)
  read? document :=
    match document with
    | .array items => items.mapM Form.read?
    | _ => none

instance : Form (Option α) where
  write value :=
    match value with
    | none => .null
    | some value => Form.write value
  read? document :=
    match document with
    | .null => some none
    | document => (Form.read? document).map some

instance : Form (OrderedMap String α) where
  write values :=
    .object (values.toList.map fun row => (escape (Utf8.encode row.1), Form.write row.2))
  read? document := do
    let members ← members? document
    let rows ← members.mapM fun member => (Form.read? member.2).map (member.1, ·)
    some (OrderedMap.ofList rows)

/-! ## Fields -/

/-- A named member of an object to be written. -/
def member (name : String) (value : α) : Bytes × Json :=
  (escape (Utf8.encode name), Form.write value)

/-- The field that stands under a name exactly once. -/
def field? (name : String) (members : List (String × Json)) : Option α :=
  match named name members with
  | [value] => Form.read? value
  | _ => none

/-- The field that stands under a name at most once, or what it is if it is left out. -/
def fieldOr? (fallback : α) (name : String) (members : List (String × Json)) : Option α :=
  match named name members with
  | [] => some fallback
  | [value] => Form.read? value
  | _ => none

end IndexedStore.Json
