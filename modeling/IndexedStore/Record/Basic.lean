import IndexedStore.Bytes

set_option autoImplicit false

/-! # Records

All that a bucket asks of a record is its key and the values it has in each index. A record may have
any number of values in an index, none among them, and the same one twice. -/

namespace IndexedStore

/-- Records that a bucket can hold. -/
class Record (R : Type) where
  /-- What a record is stored under. -/
  key : R → Bytes
  /-- The values of a record in the index of a name. -/
  indexValues : R → String → List Bytes

end IndexedStore
