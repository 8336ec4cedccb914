import IndexedStore.Config.Basic
import IndexedStore.Codec
import IndexedStore.Text.Quoted

set_option autoImplicit false

/-! # Buckets

A bucket is a set of records in a store, kept in one primary table and filed in any number of
indices. The value of this type is a handle: it knows the names of the tables and how records are
stored, and what was done to the tables when it was opened. The records themselves are in the store,
so all copies of a handle, and all handles of one name, show the same records. -/

namespace IndexedStore

/-- What was done to bring the tables of a bucket in line with its configuration. -/
structure Reconciliation where
  /-- The indices of the configuration before, if there was one. -/
  previous : Option (List String)
  /-- The indices that were built from the stored records. -/
  rebuilt : List String
  /-- The indices before that are not configured any more. -/
  orphaned : List String
  /-- How many records were read to build indices. -/
  recordsScanned : Nat
deriving DecidableEq, Repr

/-- A handle of a bucket. -/
structure Bucket (R : Type) where
  /-- The names of its tables. -/
  config : BucketConfig
  /-- How its records are stored. -/
  codec : Codec R
  /-- What was done when it was opened. -/
  reconciliation : Reconciliation

namespace Bucket

variable {R : Type} (b : Bucket R)

/-- The name of the bucket and of its primary table. -/
def name : String := b.config.name

/-- The active indices. -/
def indices : List String := b.config.indices

/-- The bucket in words. -/
def describe : String :=
  "IndexedBucket \x7b name: " ++ Quoted.text b.name ++ ", indices: " ++ Quoted.list b.indices
    ++ ", .. \x7d"

/-- The facade for cancellable calls in words. -/
def describeFacade : String :=
  "AsyncIndexedBucket \x7b bucket: " ++ b.describe ++ " \x7d"

end Bucket

end IndexedStore
