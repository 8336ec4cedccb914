import IndexedStore.Bytes

set_option autoImplicit false

/-! # Text as bytes

Names, text fields and JSON strings are stored as their UTF-8 bytes. `encode` and `decode?` are the
exact forms: a byte string is some text's encoding or none's (`decode?_encode`,
`encode_of_decode?`). `lossy` is for messages, which show keys that need not be text: it reads as
much as it can and puts one replacement character for each maximal part that no text contains. -/

namespace IndexedStore.Utf8

/-! ## Exact reading -/

/-- The UTF-8 bytes of a text. -/
def encode (text : String) : Bytes :=
  text.toByteArray.data.toList

/-- The text whose UTF-8 bytes these are. -/
def decode? (bytes : Bytes) : Option String :=
  let packed := ByteArray.mk bytes.toArray
  if h : packed.validateUTF8 then
    some (String.ofByteArray packed (ByteArray.validateUTF8_eq_true_iff.mp h))
  else none

@[simp] theorem decode?_encode (text : String) : decode? (encode text) = some text := by
  have h : text.toByteArray.validateUTF8 = true :=
    ByteArray.validateUTF8_eq_true_iff.mpr text.isValidUTF8
  simp [decode?, encode, h]

theorem encode_of_decode? {bytes : Bytes} {text : String} (h : decode? bytes = some text) :
    encode text = bytes := by
  simp only [decode?] at h
  split at h
  next => cases h; simp [encode]
  next => cases h

/-! ## Reading for display

A character is read byte by byte. `Pending` says how many bytes are still wanted, between which
bounds the next one must lie, and the bits read so far: the bounds after a first byte are what
excludes overlong forms, surrogates and code points beyond the last. -/

/-- A character of which some bytes were read. -/
structure Pending where
  /-- How many more bytes it takes. -/
  wanted : Nat
  /-- The least next byte. -/
  least : UInt8
  /-- The greatest next byte. -/
  greatest : UInt8
  /-- The bits read so far. -/
  bits : Nat

/-- What a byte begins at a character's start: a whole character, one that takes more bytes, or
none. -/
inductive Beginning where
  /-- The byte is a character. -/
  | whole (c : Char)
  /-- The byte begins a longer character. -/
  | partly (p : Pending)
  /-- The byte begins no character. -/
  | broken

/-- The character that begins with a byte. -/
def Beginning.ofByte (b : UInt8) : Beginning :=
  if b < 0x80 then .whole (Char.ofNat b.toNat)
  else if b < 0xC2 then .broken
  else if b < 0xE0 then .partly ⟨1, 0x80, 0xBF, b.toNat % 32⟩
  else if b < 0xF0 then
    .partly ⟨2, if b = 0xE0 then 0xA0 else 0x80, if b = 0xED then 0x9F else 0xBF, b.toNat % 16⟩
  else if b < 0xF5 then
    .partly ⟨3, if b = 0xF0 then 0x90 else 0x80, if b = 0xF4 then 0x8F else 0xBF, b.toNat % 8⟩
  else .broken

/-- The character shown instead of bytes that are none. -/
def replacement : Char := Char.ofNat 0xFFFD

/-- What is read so far: the characters shown, the last one first, and the one in progress. -/
structure Reading where
  /-- The characters shown, in reverse. -/
  shown : List Char
  /-- The character in progress. -/
  pending : Option Pending

namespace Reading

/-- Show one more character. -/
def add (r : Reading) (c : Char) : Reading :=
  ⟨c :: r.shown, none⟩

/-- Read a byte where a character starts. -/
def start (r : Reading) (b : UInt8) : Reading :=
  match Beginning.ofByte b with
  | .whole c => r.add c
  | .partly p => { r with pending := some p }
  | .broken => r.add replacement

/-- Read a byte. One that does not continue the character in progress ends it as a broken part and
is read as a start. -/
def feed (r : Reading) (b : UInt8) : Reading :=
  match r.pending with
  | none => r.start b
  | some p =>
    if p.least ≤ b ∧ b ≤ p.greatest then
      let bits := p.bits * 64 + b.toNat % 64
      if p.wanted = 1 then r.add (Char.ofNat bits)
      else { r with pending := some ⟨p.wanted - 1, 0x80, 0xBF, bits⟩ }
    else (r.add replacement).start b

/-- End the text; a character still in progress is a broken part. -/
def finish (r : Reading) : String :=
  let shown := if r.pending.isSome then replacement :: r.shown else r.shown
  String.ofList shown.reverse

end Reading

/-- The text of arbitrary bytes, for display. -/
def lossy (bytes : Bytes) : String :=
  (bytes.foldl Reading.feed ⟨[], none⟩).finish

end IndexedStore.Utf8
