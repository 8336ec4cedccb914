import IndexedStore.Binary
import IndexedStore.Json.Form
import IndexedStore.Json.Remark

set_option autoImplicit false

/-! # Codecs

A bucket stores each record as bytes. How is up to its codec: a pair of functions, each of which
may fail. Two codecs come with the library, for the two stored formats; a bucket works with any
other. -/

namespace IndexedStore

/-- Why JSON was not read. -/
inductive JsonFault where
  /-- The bytes are not a document of the wanted form. -/
  | malformed
  /-- Anything else, in words. -/
  | other (remark : Json.Remark)
deriving DecidableEq, Repr

/-- Why a codec failed. -/
inductive CodecError where
  /-- A value was not written in the compact format. -/
  | encode (fault : Binary.Fault)
  /-- A value was not read in the compact format. -/
  | decode (fault : Binary.Fault)
  /-- A value was not written as JSON. -/
  | jsonEncode (remark : Json.Remark)
  /-- A value was not read as JSON. -/
  | jsonDecode (fault : JsonFault)
deriving DecidableEq, Repr

/-- The fault in words. -/
def JsonFault.message : JsonFault → String
  | malformed => "malformed document"
  | other remark => remark.message

/-- The error in words. -/
def CodecError.message : CodecError → String
  | encode fault => "Encoding failed: " ++ fault.message
  | decode fault => "Decoding failed: " ++ fault.message
  | jsonEncode remark => "JSON encoding failed: " ++ remark.message
  | jsonDecode fault => "JSON decoding failed: " ++ fault.message

/-- How records are stored. -/
structure Codec (R : Type) where
  /-- The bytes of a record. -/
  encode : R → Except CodecError Bytes
  /-- The record of some bytes. -/
  decode : Bytes → Except CodecError R

namespace Codec

/-- Records as JSON. -/
def json (R : Type) [Json.Form R] : Codec R where
  encode record := .ok (Json.encode record)
  decode bytes :=
    match Json.decode? bytes with
    | some record => .ok record
    | none => .error (.jsonDecode .malformed)

/-- Records in the compact format. -/
def binary (R : Type) [Binary.Form R] : Codec R where
  encode record := .ok (Binary.encode record)
  decode bytes := (Binary.decode bytes).mapError .decode

/-- What is stored reads as what was written. -/
def Lawful {R : Type} (codec : Codec R) : Prop :=
  ∀ record bytes, codec.encode record = .ok bytes → codec.decode bytes = .ok record

end Codec

end IndexedStore
