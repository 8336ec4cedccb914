import IndexedStore.OrderedMap
import IndexedStore.Text.Utf8
import IndexedStore.Varint

set_option autoImplicit false

/-! # Values as compact bytes

The second stored format writes no names. A word wider than a byte is a variable-length number; a
text, a list and a map are their count and then their parts; an optional value is a byte 0, or a
byte 1 and the value; a structure is its fields. A value tells where it ends, so a reader takes it
off the front of the bytes and what follows is not its concern. -/

namespace IndexedStore.Binary

/-- Why a value was not written or read. -/
inductive Fault where
  /-- The bytes end within a value. -/
  | unexpectedEnd
  /-- A variable-length number is too long or too large for its type. -/
  | badVarint
  /-- The bytes of a text are not UTF-8. -/
  | badUtf8
  /-- An optional value begins with neither 0 nor 1. -/
  | badOption
  /-- A checksum does not match. -/
  | badChecksum
  /-- There is no room left to write to. -/
  | bufferFull
deriving DecidableEq, Repr

/-- The fault in words. -/
def Fault.message : Fault → String
  | unexpectedEnd => "Hit the end of buffer, expected more data"
  | badVarint => "Found a varint that didn't terminate. Is the usize too big for this platform?"
  | badUtf8 => "Tried to parse invalid utf-8"
  | badOption => "Found an Option discriminant that wasn't 0 or 1"
  | badChecksum => "Bad CRC while deserializing"
  | bufferFull => "The serialize buffer is full"

/-- How values of a type are written and taken off the front of bytes. -/
class Form (α : Type) where
  /-- The bytes of a value. -/
  write : α → Bytes
  /-- The value in front, and the bytes after it. -/
  take : Bytes → Except Fault (α × Bytes)

/-- The bytes of a value. -/
def encode {α : Type} [Form α] (value : α) : Bytes :=
  Form.write value

/-- The value that bytes begin with. -/
def decode {α : Type} [Form α] (bytes : Bytes) : Except Fault α :=
  (Form.take bytes).map (·.1)

/-! ## Numbers and texts -/

/-- The variable-length number in front. -/
def takeNumber (w : Varint.Width) (bytes : Bytes) : Except Fault (Nat × Bytes) :=
  match Varint.take w bytes with
  | .ok found => .ok found
  | .error .unended => .error .unexpectedEnd
  | .error .tooWide => .error .badVarint

instance : Form UInt8 where
  write n := [n]
  take bytes :=
    match bytes with
    | [] => .error .unexpectedEnd
    | b :: rest => .ok (b, rest)

instance : Form UInt16 where
  write n := Varint.encode n.toNat
  take bytes := (takeNumber .w16 bytes).map fun found => (UInt16.ofNat found.1, found.2)

instance : Form UInt32 where
  write n := Varint.encode n.toNat
  take bytes := (takeNumber .w32 bytes).map fun found => (UInt32.ofNat found.1, found.2)

instance : Form UInt64 where
  write n := Varint.encode n.toNat
  take bytes := (takeNumber .w64 bytes).map fun found => (UInt64.ofNat found.1, found.2)

instance : Form String where
  write text := Varint.encode (Utf8.encode text).length ++ Utf8.encode text
  take bytes := do
    let (length, rest) ← takeNumber .w64 bytes
    let body := rest.take length
    if body.length < length then throw .unexpectedEnd
    match Utf8.decode? body with
    | none => throw .badUtf8
    | some text => return (text, rest.drop length)

/-! ## Compound values -/

variable {α β : Type} [Form α] [Form β]

instance : Form (α × β) where
  write pair := Form.write pair.1 ++ Form.write pair.2
  take bytes := do
    let (first, rest) ← Form.take bytes
    let (second, rest) ← Form.take rest
    return ((first, second), rest)

/-- As many values as asked for, after those already `taken` (reversed). -/
def takeMany (α : Type) [Form α] (taken : List α) : Nat → Bytes → Except Fault (List α × Bytes)
  | 0, bytes => .ok (taken.reverse, bytes)
  | count + 1, bytes =>
    match Form.take bytes with
    | .error fault => .error fault
    | .ok (value, rest) => takeMany α (value :: taken) count rest

instance : Form (List α) where
  write values := Varint.encode values.length ++ values.flatMap Form.write
  take bytes := do
    let (count, rest) ← takeNumber .w64 bytes
    takeMany α [] count rest

instance : Form (Option α) where
  write value :=
    match value with
    | none => [0]
    | some value => 1 :: Form.write value
  take bytes :=
    match bytes with
    | [] => .error .unexpectedEnd
    | 0 :: rest => .ok (none, rest)
    | 1 :: rest => (Form.take rest).map fun found => (some found.1, found.2)
    | _ => .error .badOption

instance : Form (OrderedMap String α) where
  write values := Form.write values.toList
  take bytes := (Form.take bytes).map fun found => (OrderedMap.ofList found.1, found.2)

end IndexedStore.Binary
