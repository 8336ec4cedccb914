import IndexedStore.Varint

set_option autoImplicit false

/-! # Composite keys

An index table holds one entry per pair of an index value and a record key: the length of the value,
the value, the key. The length in front makes the pair readable again, and makes the entries of one
value exactly those that begin with its `stem`, whatever other values begin with the value. -/

namespace IndexedStore

/-- The greatest length of an index value. -/
def maxValueLength : Nat := 4294967295

/-- An index value is longer than an entry can hold. -/
structure Oversized where
  /-- The length of the value. -/
  size : Nat
deriving DecidableEq, Repr

namespace CompositeKey

/-- What all entries of a value begin with: its length and itself. -/
def stem (value : Bytes) : Except Oversized Bytes :=
  if value.length ≤ maxValueLength then .ok (Varint.encode value.length ++ value)
  else .error ⟨value.length⟩

/-- The entry of a value and a record key. -/
def encode (value key : Bytes) : Except Oversized Bytes :=
  (stem value).map (· ++ key)

/-- The value and the record key of an entry. -/
def decode? (entry : Bytes) : Option (Bytes × Bytes) :=
  match Varint.decodeLength? entry with
  | none => none
  | some (length, width) =>
    let rest := entry.drop width
    if length ≤ rest.length then some (rest.take length, rest.drop length) else none

end CompositeKey

end IndexedStore
