import IndexedStore.Codec
import IndexedStore.Record.Basic

set_option autoImplicit false

/-! # Words

A record that is nothing but its key, stored as it is. It is filed under what it begins with and
under each of its letters. -/

namespace IndexedStore

/-- A record that is nothing but its key. -/
structure Word where
  /-- What the word is stored under. -/
  letters : Bytes
deriving DecidableEq, Repr

instance : Record Word where
  key word := word.letters
  indexValues word index :=
    if index = "initial" then [word.letters.take 1]
    else if index = "letter" then word.letters.map fun letter => [letter]
    else []

/-- Words as they are. -/
def Codec.words : Codec Word where
  encode word := .ok word.letters
  decode bytes := .ok ⟨bytes⟩

theorem Codec.words_lawful : Codec.words.Lawful := by
  rintro word bytes ⟨⟩
  rfl

end IndexedStore
