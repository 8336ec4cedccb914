set_option autoImplicit false

/-! # Byte strings

Keys, values and file contents are byte strings: plain lists of `UInt8`, compared byte by byte
from the left, a proper beginning before its continuations. That is the order of every table. -/

namespace IndexedStore

/-- A byte string. -/
abbrev Bytes := List UInt8

namespace Bytes

/-- The eight bytes of a word, the most significant first, so that byte order is numeric order. -/
def ofWord (n : UInt64) : Bytes :=
  [7, 6, 5, 4, 3, 2, 1, 0].map fun place => UInt8.ofNat (n.toNat >>> (8 * place))

/-- The bytes of a text that holds code points below 128 only, such as a decimal numeral. -/
def ofAscii (text : String) : Bytes :=
  text.toList.map fun c => UInt8.ofNat c.toNat

end Bytes

end IndexedStore
