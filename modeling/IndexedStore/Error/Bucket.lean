import IndexedStore.Codec
import IndexedStore.CompositeKey
import IndexedStore.Config.Basic
import IndexedStore.Error.Code
import IndexedStore.Store

set_option autoImplicit false

/-! # Errors

What can go wrong with a bucket and with the opening of a store. An error is its cause; the words
shown for it and its code are functions of the cause. Messages show keys as text, as far as they are
text. -/

namespace IndexedStore

/-- Why the store as a whole failed. -/
inductive StorageError where
  /-- What is stored is damaged. -/
  | damaged (text : String)
  /-- The file is open already. -/
  | locked
  /-- There is no such file or directory. -/
  | notFound
  /-- A path ends at a directory. -/
  | isDirectory
  /-- A path leads on from a file. -/
  | notDirectory
  /-- A path or a name in it is too long. -/
  | nameTooLong
  /-- A path holds the character zero. -/
  | nulInPath
  /-- The file is not a store. -/
  | foreign
deriving DecidableEq, Repr

/-- The error in words. -/
def StorageError.message : StorageError → String
  | damaged text => "DB corrupted: " ++ text
  | locked => "Database already open. Cannot acquire lock."
  | notFound => "I/O error: No such file or directory (os error 2)"
  | isDirectory => "I/O error: Is a directory (os error 21)"
  | notDirectory => "I/O error: Not a directory (os error 20)"
  | nameTooLong => "I/O error: File name too long (os error 36)"
  | nulInPath => "I/O error: file name contained an unexpected NUL byte"
  | foreign => "I/O error: invalid data"

/-! ## Stored state that contradicts itself -/

/-- How what is stored contradicts itself. -/
inductive Corruption where
  /-- The descriptor of the indices has an unknown version. -/
  | version (found expected : UInt16)
  /-- A record reports another key than it is stored under. -/
  | misfiled (stored reported : Bytes)
  /-- Anything else, in words. -/
  | other (text : String)
deriving DecidableEq, Repr

/-- The contradiction in words. -/
def Corruption.message : Corruption → String
  | version found expected =>
    "unsupported index metadata version " ++ toString found.toNat ++ " (expected "
      ++ toString expected.toNat ++ ")"
  | misfiled stored reported =>
    "record stored under " ++ Utf8.lossy stored ++ " reports key " ++ Utf8.lossy reported
  | other text => text

/-! ## Buckets -/

/-- Why a call on a bucket failed. -/
inductive BucketError where
  /-- A record to be inserted is stored already. -/
  | keyConflict (key : Bytes)
  /-- A record to be updated is not stored. -/
  | unknownKey (key : Bytes)
  /-- A record to be updated is named twice. -/
  | duplicateKey (key : Bytes)
  /-- A mutator changed the keys of its records. -/
  | keyMutated (before after : Bytes)
  /-- A key cannot be stored. -/
  | invalidKey (reason : String)
  /-- The table of an active index is missing. -/
  | missingIndex (index : String)
  /-- The index is not active. -/
  | unknownIndex (index bucket : String)
  | mutator (text : String)
  /-- The call was cancelled. -/
  | cancelled
  /-- An index value is too long. -/
  | keyTooLarge (size limit : Nat)
  /-- What is stored contradicts itself. -/
  | corrupted (reason : Corruption)
  /-- A record was not written or read. -/
  | codec (error : CodecError)
  /-- The configuration is invalid. -/
  | config (error : ConfigError)
  /-- A table was not read or written. -/
  | storage (error : StorageError)
  /-- A table was not opened. -/
  | table (error : TableError)
  /-- A transaction did not begin. -/
  | transaction (error : StorageError)
  /-- A transaction was not committed. -/
  | commit (error : StorageError)
  /-- Something happened that should not. -/
  | internal (text : String)
deriving DecidableEq, Repr

namespace BucketError

/-- The error of an index value that is too long. -/
def oversized (value : Oversized) : BucketError :=
  .keyTooLarge value.size maxValueLength

/-- The error in words. -/
def message : BucketError → String
  | keyConflict key => "Key conflict: " ++ Utf8.lossy key ++ " already exists"
  | unknownKey key => "Unknown key: " ++ Utf8.lossy key
  | duplicateKey key => "Duplicate key in update: " ++ Utf8.lossy key
  | keyMutated before after =>
    "Mutator changed primary key from " ++ Utf8.lossy before ++ " to " ++ Utf8.lossy after
  | invalidKey reason => "Invalid key: " ++ reason
  | missingIndex index => "Missing index bucket " ++ index ++ "; reindex required"
  | unknownIndex index bucket => "Index " ++ index ++ " is not active on bucket " ++ bucket
  | mutator text => "Mutator failed: " ++ text
  | cancelled => "Operation cancelled"
  | keyTooLarge size limit =>
    "Index value too large: " ++ toString size ++ " bytes (max " ++ toString limit ++ ")"
  | corrupted reason => "Corrupted bucket state: " ++ reason.message
  | codec error => "Codec error: " ++ error.message
  | config error => "Config error: " ++ error.message
  | storage error => "Storage error: " ++ error.message
  | table error => "Table error: " ++ error.message
  | transaction error => "Transaction error: " ++ error.message
  | commit error => "Commit error: " ++ error.message
  | internal text => "Internal error: " ++ text

/-- The code of the error. -/
def code : BucketError → ErrorCode
  | keyConflict _ => .bucketKeyConflict
  | unknownKey _ => .bucketUnknownKey
  | duplicateKey _ => .appInvalidArgument
  | keyMutated _ _ => .appInvalidArgument
  | invalidKey _ => .appInvalidArgument
  | missingIndex _ => .bucketMissingIndex
  | unknownIndex _ _ => .bucketUnknownIndex
  | mutator _ => .bucketMutator
  | cancelled => .bucketCancelled
  | keyTooLarge _ _ => .storageKeyEncoding
  | corrupted _ => .storageCorruption
  | codec _ => .appSerialization
  | config _ => .appConfig
  | storage _ => .storageTableOperation
  | table _ => .storageTableOperation
  | transaction _ => .storageTransaction
  | commit _ => .storageTransaction
  | internal _ => .appInternal

end BucketError

/-! ## Engines -/

/-- Why a call on a storage engine failed. -/
inductive EngineError where
  /-- The store at a path was not opened. -/
  | opening (path : String) (error : StorageError)
  /-- A transaction did not begin. -/
  | transaction (error : StorageError)
  /-- The store was not read. -/
  | storage (error : StorageError)
deriving DecidableEq, Repr

namespace EngineError

/-- The error in words. -/
def message : EngineError → String
  | opening path error => "Failed to open database at " ++ path ++ ": " ++ error.message
  | transaction error => "Transaction failed: " ++ error.message
  | storage error => "Storage operation failed: " ++ error.message

/-- The code of the error. -/
def code : EngineError → ErrorCode
  | opening _ _ => .storageDatabaseOpen
  | transaction _ => .storageTransaction
  | storage _ => .storageTableOperation

end EngineError

end IndexedStore
