import IndexedStore.Text.Invisible

set_option autoImplicit false

/-! # Quoted text

Names in descriptions and in logged lists stand between quotes, so that a name with blanks, quotes
or invisible characters is seen for what it is. A character that shows nothing of its own is written
as its code point. -/

namespace IndexedStore.Quoted

/-- A lower-case hexadecimal numeral. -/
def hex (n : Nat) : String :=
  String.ofList (Nat.toDigits 16 n)

/-- A character between quotes. -/
def character (c : Char) : String :=
  match c.toNat with
  | 0 => "\\0"
  | 9 => "\\t"
  | 10 => "\\n"
  | 13 => "\\r"
  | 34 => "\\\""
  | 92 => "\\\\"
  | code => if Invisible.isInvisible c then "\\u\x7b" ++ hex code ++ "\x7d" else c.toString

/-- A text in quotes. -/
def text (s : String) : String :=
  "\"" ++ String.join (s.toList.map character) ++ "\""

/-- A list of texts in quotes. -/
def list (items : List String) : String :=
  "[" ++ ", ".intercalate (items.map text) ++ "]"

end IndexedStore.Quoted
