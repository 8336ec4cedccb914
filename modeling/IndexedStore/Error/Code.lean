set_option autoImplicit false

/-! # Error codes

Every failure of the library has a code: a number that is kept stable for callers, whether trying
again may help, and what to do about it. -/

namespace IndexedStore

/-- A class of failures. -/
inductive ErrorCode where
  /-- The store cannot be opened. -/
  | storageDatabaseOpen
  /-- A transaction did not begin or commit. -/
  | storageTransaction
  /-- A table was not opened, read or written. -/
  | storageTableOperation
  /-- An index value does not fit an entry. -/
  | storageKeyEncoding
  /-- What is stored contradicts itself. -/
  | storageCorruption
  /-- A record to be inserted is stored already. -/
  | bucketKeyConflict
  /-- A record to be updated is not stored. -/
  | bucketUnknownKey
  /-- The table of an index is missing. -/
  | bucketMissingIndex
  /-- An index is not active. -/
  | bucketUnknownIndex
  /-- The mutator of an update failed. -/
  | bucketMutator
  /-- The call was cancelled. -/
  | bucketCancelled
  /-- The arguments of a call do not make sense. -/
  | appInvalidArgument
  /-- A record was not written or read. -/
  | appSerialization
  /-- A configuration is invalid. -/
  | appConfig
  /-- Something happened that should not. -/
  | appInternal
deriving DecidableEq, Repr

namespace ErrorCode

/-- All codes, in the order of their numbers. -/
def all : List ErrorCode :=
  [storageDatabaseOpen, storageTransaction, storageTableOperation, storageKeyEncoding,
    storageCorruption, bucketKeyConflict, bucketUnknownKey, bucketMissingIndex, bucketUnknownIndex,
    bucketMutator, bucketCancelled, appInvalidArgument, appSerialization, appConfig, appInternal]

/-- The number of a code. -/
def number : ErrorCode → Nat
  | storageDatabaseOpen => 1000
  | storageTransaction => 1001
  | storageTableOperation => 1002
  | storageKeyEncoding => 1003
  | storageCorruption => 1101
  | bucketKeyConflict => 3100
  | bucketUnknownKey => 3101
  | bucketMissingIndex => 3102
  | bucketUnknownIndex => 3103
  | bucketMutator => 3104
  | bucketCancelled => 3105
  | appInvalidArgument => 3200
  | appSerialization => 3201
  | appConfig => 3202
  | appInternal => 3204

/-- The code of a number. -/
def ofNumber? (n : Nat) : Option ErrorCode :=
  all.find? (·.number = n)

/-- The name of a code. -/
def name : ErrorCode → String
  | storageDatabaseOpen => "StorageDatabaseOpen"
  | storageTransaction => "StorageTransaction"
  | storageTableOperation => "StorageTableOperation"
  | storageKeyEncoding => "StorageKeyEncoding"
  | storageCorruption => "StorageCorruption"
  | bucketKeyConflict => "BucketKeyConflict"
  | bucketUnknownKey => "BucketUnknownKey"
  | bucketMissingIndex => "BucketMissingIndex"
  | bucketUnknownIndex => "BucketUnknownIndex"
  | bucketMutator => "BucketMutator"
  | bucketCancelled => "BucketCancelled"
  | appInvalidArgument => "AppInvalidArgument"
  | appSerialization => "AppSerialization"
  | appConfig => "AppConfig"
  | appInternal => "AppInternal"

/-- Whether the same call may succeed later. -/
def retryable (code : ErrorCode) : Bool :=
  code = storageTransaction || code = bucketCancelled

/-- What a caller can do about it. -/
def action : ErrorCode → String
  | storageDatabaseOpen =>
    "Verify the database path exists with correct permissions and is not locked by another process."
  | storageTransaction => "Retry the transaction with backoff."
  | storageTableOperation =>
    "Check disk space and I/O health. Key and value sizes must fit the engine limits."
  | storageKeyEncoding => "Shorten the index value or record key."
  | storageCorruption => "Restore from backup, or run reindex if only index buckets are affected."
  | bucketKeyConflict =>
    "Use update for existing records, or delete the record before inserting it again."
  | bucketUnknownKey => "Insert the record before updating it."
  | bucketMissingIndex => "Run reindex to rebuild the index buckets."
  | bucketUnknownIndex => "Add the index to the bucket configuration and reopen the bucket."
  | bucketMutator => "Inspect the mutator error; no changes were committed."
  | bucketCancelled => "Retry the operation with a fresh cancellation token."
  | appInvalidArgument => "Fix the request parameters and resubmit."
  | appSerialization =>
    "Codec mismatch or data corruption. Verify the bucket is opened with the codec it was written "
      ++ "with."
  | appConfig => "Fix the configuration value and reopen the bucket."
  | appInternal => "Unexpected state; report as an issue with context."

end ErrorCode

end IndexedStore
