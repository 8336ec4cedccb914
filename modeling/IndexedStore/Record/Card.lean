import IndexedStore.Codec
import IndexedStore.Record.Basic

set_option autoImplicit false

/-! # Cards

A record with one value besides its key: a card has a suit, under which it is filed and which may
change. The suit is stored in front of the key. -/

namespace IndexedStore

/-- A record with one value besides its key. -/
structure Card where
  /-- What the card is stored under. -/
  key : Bytes
  suit : UInt8
deriving DecidableEq, Repr

instance : Record Card where
  key card := card.key
  indexValues card index := if index = "suit" then [[card.suit]] else []

/-- Cards with the suit in front. -/
def Codec.cards : Codec Card where
  encode card := .ok (card.suit :: card.key)
  decode bytes :=
    match bytes with
    | [] => .error (.decode .unexpectedEnd)
    | suit :: key => .ok ⟨key, suit⟩

theorem Codec.cards_lawful : Codec.cards.Lawful := by
  rintro card bytes ⟨⟩
  rfl

end IndexedStore
