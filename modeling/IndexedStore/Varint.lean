import IndexedStore.Bytes

set_option autoImplicit false

/-! # Variable-length numbers

A number is written in groups of seven bits, the lowest group first; every byte but the last has its
top bit set. There is one writer and two readers. The composite keys of an index need a reader that
accepts each number in one form only (`decodeLength?`); the binary record format needs one that
bounds the number of groups by the width of the type but accepts trailing empty groups (`take`). -/

namespace IndexedStore.Varint

/-- The groups of a number. -/
def encode (n : Nat) : Bytes :=
  if n < 128 then [UInt8.ofNat n]
  else UInt8.ofNat (n % 128 + 128) :: encode (n / 128)
decreasing_by omega

/-! ## The one-form reader -/

/-- The most groups a length takes. -/
def maxLengthGroups : Nat := 5

/-- Lengths are below this bound. -/
def lengthBound : Nat := UInt32.size

/-- Read group number `i` and on, where the groups before it add up to `low`. A last group that is
empty, except as the only one, would be a second form of a shorter number and is refused. -/
def lengthFrom (i low : Nat) : Bytes → Option (Nat × Nat)
  | [] => none
  | b :: rest =>
    if maxLengthGroups ≤ i then none
    else
      let n := low + (b.toNat % 128) <<< (7 * i)
      if b < 128 then
        if 0 < i ∧ b = 0 then none
        else if lengthBound ≤ n then none
        else some (n, i + 1)
      else lengthFrom (i + 1) n rest

/-- The length at the start of the bytes, with the number of bytes it takes there. -/
def decodeLength? (bytes : Bytes) : Option (Nat × Nat) :=
  lengthFrom 0 0 bytes

/-! ## The bounded reader -/

/-- How many groups a type's numbers take at most, and the greatest last group then. -/
structure Width where
  groups : Nat
  /-- The greatest value of the last of that many groups. -/
  lastGroup : Nat
deriving DecidableEq, Repr

/-- Sixteen bits. -/
def Width.w16 : Width := ⟨3, 3⟩

/-- Thirty-two bits. -/
def Width.w32 : Width := ⟨5, 15⟩

/-- Sixty-four bits. -/
def Width.w64 : Width := ⟨10, 1⟩

/-- Why no number was read. -/
inductive Fault where
  /-- The bytes end within the number. -/
  | unended
  /-- The number has too many groups or is too large for its type. -/
  | tooWide
deriving DecidableEq, Repr

/-- Read group number `i` and on, where the groups before it add up to `low`. -/
def takeFrom (w : Width) (i low : Nat) : Bytes → Except Fault (Nat × Bytes)
  | [] => if i < w.groups then .error .unended else .error .tooWide
  | b :: rest =>
    if i < w.groups then
      let n := low + (b.toNat % 128) <<< (7 * i)
      if b < 128 then
        if i + 1 = w.groups ∧ w.lastGroup < b.toNat then .error .tooWide else .ok (n, rest)
      else takeFrom w (i + 1) n rest
    else .error .tooWide

/-- The number at the start of the bytes, and the bytes after it. -/
def take (w : Width) (bytes : Bytes) : Except Fault (Nat × Bytes) :=
  takeFrom w 0 0 bytes

end IndexedStore.Varint
