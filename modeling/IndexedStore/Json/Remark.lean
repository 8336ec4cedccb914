import IndexedStore.Decimal
import IndexedStore.Text.Utf8

set_option autoImplicit false

/-! # Remarks on JSON documents

What is wrong with a document is said in words, and where, if that is known. `Json.Remark.ofText`
takes both from a text: a text that ends in `at line 3 column 14` names a place, and line 0 stands
for no place. So a place is shown by its plain numerals, however it was written. -/

namespace IndexedStore.Json

/-- A place in a document. -/
structure Position where
  /-- The line, counted from one. -/
  line : UInt64
  /-- The column in that line. -/
  column : UInt64
deriving DecidableEq, Repr

/-- What is wrong with a document. -/
structure Remark where
  words : String
  /-- The place they are about, if it is known. -/
  position : Option Position
deriving DecidableEq, Repr

/-! ## Writing -/

/-- What stands before the line of a place. -/
def lineMark : String := " at line "

/-- What stands before the column of a place. -/
def columnMark : String := " column "

/-- The place in words. -/
def Position.message (position : Position) : String :=
  lineMark ++ toString position.line.toNat ++ columnMark ++ toString position.column.toNat

/-- The remark in words. -/
def Remark.message (remark : Remark) : String :=
  match remark.position with
  | none => remark.words
  | some position => remark.words ++ position.message

/-! ## Reading -/

/-- What stands before and behind the last occurrence of a mark. -/
def splitLast? (mark : List Char) : List Char → Option (List Char × List Char)
  | [] => none
  | c :: rest =>
    match splitLast? mark rest with
    | some (front, back) => some (c :: front, back)
    | none =>
      if mark.isPrefixOf (c :: rest) then some ([], (c :: rest).drop mark.length) else none

/-- The number that one or more digits spell, if it fits a word. -/
def word? (numeral : List Char) : Option UInt64 :=
  if numeral = [] then none
  else (Decimal.belowFrom UInt64.size 0 (Utf8.encode (String.ofList numeral))).map .ofNat

/-- The place that the text behind `lineMark` names. -/
def Position.read? (text : List Char) : Option Position := do
  let (line, column) ← splitLast? columnMark.toList text
  return ⟨← word? line, ← word? column⟩

/-- The remark that ends in a place. -/
def Remark.placed? (text : String) : Option Remark := do
  let (words, place) ← splitLast? lineMark.toList text.toList
  let position ← Position.read? place
  return ⟨String.ofList words, if position.line = 0 then none else some position⟩

/-- The remark a text makes. -/
def Remark.ofText (text : String) : Remark :=
  (Remark.placed? text).getD ⟨text, none⟩

end IndexedStore.Json
