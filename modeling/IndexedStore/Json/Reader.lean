import IndexedStore.Json.Basic

set_option autoImplicit false

/-! # Reading JSON

`Json.read?` accepts exactly one document with blanks around it. Blanks are space, tab, line feed
and carriage return; there are no comments, no trailing commas and no byte order mark; numbers have
no leading zeros; a string holds no control character below U+0020 unescaped, and its escapes are
well formed, though a surrogate may stand alone.

The reader's depth is bounded by the length of what it reads, which is the fuel of `document`: each
level of nesting takes at least one byte. -/

namespace IndexedStore.Json

/-! ## Blanks and words -/

/-- Whether a byte is blank. -/
def isBlank (b : UInt8) : Bool :=
  b = 32 || b = 9 || b = 10 || b = 13

/-- What is left after the blanks in front. -/
def skipBlanks (text : Bytes) : Bytes :=
  text.dropWhile isBlank

/-- What is left after a word in front. -/
def afterWord? (word text : Bytes) : Option Bytes :=
  if word.isPrefixOf text then some (text.drop word.length) else none

/-! ## Numbers -/

/-- One digit or more in front, and the rest. -/
def someDigits? (text : Bytes) : Option (Bytes × Bytes) :=
  match text.takeWhile Decimal.isDigit with
  | [] => none
  | digits => some (digits, text.dropWhile Decimal.isDigit)

/-- The digits before the point: a zero alone, or digits that do not begin with one. -/
def wholePart? : Bytes → Option (Bytes × Bytes)
  | 48 :: rest => some ([48], rest)
  | text => someDigits? text

/-- The point and the digits after it, if there is a point. -/
def fraction? : Bytes → Option (Bytes × Bytes)
  | 46 :: rest => (someDigits? rest).map fun found => (46 :: found.1, found.2)
  | text => some ([], text)

/-- The sign and digits of an exponent. -/
def signedDigits? : Bytes → Option (Bytes × Bytes)
  | 43 :: rest => (someDigits? rest).map fun found => (43 :: found.1, found.2)
  | 45 :: rest => (someDigits? rest).map fun found => (45 :: found.1, found.2)
  | text => someDigits? text

/-- The exponent, if there is one. -/
def exponent? : Bytes → Option (Bytes × Bytes)
  | 101 :: rest => (signedDigits? rest).map fun found => (101 :: found.1, found.2)
  | 69 :: rest => (signedDigits? rest).map fun found => (69 :: found.1, found.2)
  | text => some ([], text)

/-- A number without a sign. -/
def unsigned? (text : Bytes) : Option (Bytes × Bytes) := do
  let (whole, rest) ← wholePart? text
  let (fraction, rest) ← fraction? rest
  let (exponent, rest) ← exponent? rest
  some (whole ++ (fraction ++ exponent), rest)

/-- A number as it is spelled, and the rest. -/
def number? : Bytes → Option (Bytes × Bytes)
  | 45 :: rest => (unsigned? rest).map fun found => (45 :: found.1, found.2)
  | text => unsigned? text

/-! ## Strings -/

/-- How many bytes, after `n`, stand before the quote that ends a string. -/
def bodyLength (n : Nat) : Bytes → Option Nat
  | [] => none
  | 34 :: _ => some n
  | 92 :: 117 :: a :: b :: c :: d :: rest =>
    if (hexUnit? a b c d).isSome then bodyLength (n + 6) rest else none
  | 92 :: e :: rest => if (shortEscape? e).isSome then bodyLength (n + 2) rest else none
  | b :: rest => if b < 32 ∨ b = 92 then none else bodyLength (n + 1) rest

/-- The spelling of a string whose opening quote was read, and what follows its closing quote. -/
def body? (text : Bytes) : Option (Bytes × Bytes) :=
  (bodyLength 0 text).map fun n => (text.take n, text.drop (n + 1))

/-! ## Documents -/

mutual

/-- A document in front, and the rest. -/
def document : Nat → Bytes → Option (Json × Bytes)
  | 0, _ => none
  | fuel + 1, text =>
    match skipBlanks text with
    | 34 :: rest => (body? rest).map fun found => (.string found.1, found.2)
    | 91 :: rest =>
      match skipBlanks rest with
      | 93 :: rest => some (.array [], rest)
      | rest => items fuel [] rest
    | 123 :: rest =>
      match skipBlanks rest with
      | 125 :: rest => some (.object [], rest)
      | rest => members fuel [] rest
    | 110 :: rest => (afterWord? [117, 108, 108] rest).map (.null, ·)
    | 116 :: rest => (afterWord? [114, 117, 101] rest).map (.bool true, ·)
    | 102 :: rest => (afterWord? [97, 108, 115, 101] rest).map (.bool false, ·)
    | rest => (number? rest).map fun found => (.number found.1, found.2)

/-- The items of an array after those already `read` (reversed), up to its end. -/
def items : Nat → List Json → Bytes → Option (Json × Bytes)
  | 0, _, _ => none
  | fuel + 1, read, text =>
    match document fuel text with
    | none => none
    | some (item, rest) =>
      match skipBlanks rest with
      | 44 :: rest => items fuel (item :: read) rest
      | 93 :: rest => some (.array (item :: read).reverse, rest)
      | _ => none

/-- The members of an object after those already `read` (reversed), up to its end. -/
def members : Nat → List (Bytes × Json) → Bytes → Option (Json × Bytes)
  | 0, _, _ => none
  | fuel + 1, read, text =>
    match skipBlanks text with
    | 34 :: rest =>
      match body? rest with
      | none => none
      | some (name, rest) =>
        match skipBlanks rest with
        | 58 :: rest =>
          match document fuel rest with
          | none => none
          | some (value, rest) =>
            match skipBlanks rest with
            | 44 :: rest => members fuel ((name, value) :: read) rest
            | 125 :: rest => some (.object ((name, value) :: read).reverse, rest)
            | _ => none
        | _ => none
    | _ => none

end

/-- The document that a text consists of. -/
def read? (text : Bytes) : Option Json :=
  match document (2 * text.length + 1) text with
  | some (document, rest) => if (skipBlanks rest).isEmpty then some document else none
  | none => none

end IndexedStore.Json
