import IndexedStore.Decimal
import IndexedStore.Text.Utf8

set_option autoImplicit false

/-! # JSON documents

A document as a tree that keeps numbers and strings as they are spelled. What a spelling means is
decided by the reader that asks for a number or a text (`natural?`, `text?`): a part of a document
that nobody asks for may hold a number of any size and a string that is no text at all, as long as
its spelling is well formed.

`print` writes a tree without blanks; `Json.read?`, in `IndexedStore.Json.Reader`, reads one. -/

namespace IndexedStore

/-- A JSON document. -/
inductive Json where
  | null
  /-- The word `true` or `false`. -/
  | bool (b : Bool)
  /-- A number, as it is spelled. -/
  | number (spelling : Bytes)
  /-- A string, as it is spelled between its quotes. -/
  | string (body : Bytes)
  /-- A list of documents. -/
  | array (items : List Json)
  /-- Named documents, each name as it is spelled between its quotes. -/
  | object (members : List (Bytes × Json))

namespace Json

/-! ## Strings

`escape` spells a byte as itself unless it is a quote, a backslash or a control character. The rest
of UTF-8 stands for itself, so a text is escaped byte by byte. -/

/-- A lower-case hexadecimal digit. -/
def hexDigit (n : Nat) : UInt8 :=
  UInt8.ofNat (if n < 10 then 48 + n else 87 + n)

/-- How a byte of a text is spelled in a string. -/
def escapeByte (b : UInt8) : Bytes :=
  if b = 34 then [92, 34]
  else if b = 92 then [92, 92]
  else if b = 8 then [92, 98]
  else if b = 9 then [92, 116]
  else if b = 10 then [92, 110]
  else if b = 12 then [92, 102]
  else if b = 13 then [92, 114]
  else if b < 32 then [92, 117, 48, 48, hexDigit (b.toNat / 16), hexDigit (b.toNat % 16)]
  else [b]

/-- How bytes of a text are spelled in a string. -/
def escape (bytes : Bytes) : Bytes :=
  bytes.flatMap escapeByte

/-- The value of a hexadecimal digit of either case. -/
def hexValue? (b : UInt8) : Option Nat :=
  if 48 ≤ b && b ≤ 57 then some (b.toNat - 48)
  else if 65 ≤ b && b ≤ 70 then some (b.toNat - 55)
  else if 97 ≤ b && b ≤ 102 then some (b.toNat - 87)
  else none

/-- The value of four hexadecimal digits. -/
def hexUnit? (a b c d : UInt8) : Option Nat := do
  let a ← hexValue? a
  let b ← hexValue? b
  let c ← hexValue? c
  let d ← hexValue? d
  some (((a * 16 + b) * 16 + c) * 16 + d)

/-- The byte that a one-letter escape stands for. -/
def shortEscape? (b : UInt8) : Option UInt8 :=
  if b = 34 then some 34
  else if b = 92 then some 92
  else if b = 47 then some 47
  else if b = 98 then some 8
  else if b = 102 then some 12
  else if b = 110 then some 10
  else if b = 114 then some 13
  else if b = 116 then some 9
  else none

/-- The UTF-8 bytes of a code point, reversed. -/
def reversedUtf8 (code : Nat) : Bytes :=
  (String.utf8EncodeChar (Char.ofNat code)).reverse

/-- Read a string's spelling after `read` (reversed). An escaped surrogate must be the first half of
a pair whose second half is escaped right after it. -/
def unescapeFrom (read : Bytes) : Bytes → Option Bytes
  | [] => some read.reverse
  | 92 :: 117 :: a :: b :: c :: d :: rest =>
    match hexUnit? a b c d with
    | none => none
    | some unit =>
      if 0xDC00 ≤ unit ∧ unit < 0xE000 then none
      else if 0xD800 ≤ unit ∧ unit < 0xDC00 then
        match rest with
        | 92 :: 117 :: e :: f :: g :: h :: rest =>
          match hexUnit? e f g h with
          | none => none
          | some low =>
            if 0xDC00 ≤ low ∧ low < 0xE000 then
              let code := 0x10000 + (unit - 0xD800) * 0x400 + (low - 0xDC00)
              unescapeFrom (reversedUtf8 code ++ read) rest
            else none
        | _ => none
      else unescapeFrom (reversedUtf8 unit ++ read) rest
  | 92 :: e :: rest =>
    match shortEscape? e with
    | none => none
    | some b => unescapeFrom (b :: read) rest
  | b :: rest => if b = 92 then none else unescapeFrom (b :: read) rest

/-- The bytes that a string's spelling stands for. -/
def unescape? (body : Bytes) : Option Bytes :=
  unescapeFrom [] body

/-- The text that a string's spelling stands for. -/
def bodyText? (body : Bytes) : Option String :=
  (unescape? body).bind Utf8.decode?

/-! ## Values -/

/-- A text as a document. -/
def ofText (text : String) : Json :=
  .string (escape (Utf8.encode text))

/-- A natural number as a document. -/
def ofNat (n : Nat) : Json :=
  .number (Decimal.digits n)

/-- The text of a document that is a string. -/
def text? : Json → Option String
  | .string body => bodyText? body
  | _ => none

/-- The number of a document that is a natural number below `bound`. -/
def natural? (bound : Nat) : Json → Option Nat
  | .number spelling => Decimal.below? bound spelling
  | _ => none

/-- The members of an object, with the names read as texts. -/
def members? : Json → Option (List (String × Json))
  | .object members => members.mapM fun member => (bodyText? member.1).map (·, member.2)
  | _ => none

/-- The documents that stand under a name. -/
def named (name : String) (members : List (String × Json)) : List Json :=
  (members.filter (·.1 = name)).map (·.2)

/-! ## Writing -/

mutual

/-- The document without blanks. -/
def print : Json → Bytes
  | .null => [110, 117, 108, 108]
  | .bool true => [116, 114, 117, 101]
  | .bool false => [102, 97, 108, 115, 101]
  | .number spelling => spelling
  | .string body => 34 :: (body ++ [34])
  | .array items => 91 :: (printItems items ++ [93])
  | .object members => 123 :: (printMembers members ++ [125])

/-- Documents with commas between them. -/
def printItems : List Json → Bytes
  | [] => []
  | [item] => item.print
  | item :: more => item.print ++ 44 :: printItems more

/-- Named documents with commas between them. -/
def printMembers : List (Bytes × Json) → Bytes
  | [] => []
  | [(name, value)] => 34 :: (name ++ 34 :: 58 :: value.print)
  | (name, value) :: more => 34 :: (name ++ 34 :: 58 :: (value.print ++ 44 :: printMembers more))

end

end Json

end IndexedStore
