import IndexedStore.Bucket.Read
import IndexedStore.Bucket.Verify
import IndexedStore.Record.Document

set_option autoImplicit false

/-! # Queries

The calls of a session that read a bucket, and what they answer. -/

namespace IndexedStore

/-- A bucket of documents that a session has open. -/
structure Handle where
  bucket : Bucket Document
  kind : DocumentKind
  /-- How its records are stored. -/
  format : Format

/-- Why a step of a session failed. -/
inductive Failure where
  /-- No store is open. -/
  | noEngine
  /-- There is no such bucket. -/
  | noBucket
  /-- The store was not opened. -/
  | engine (error : EngineError)
  /-- A call on a bucket failed. -/
  | bucket (error : BucketError)
  /-- A table was not opened. -/
  | table (error : TableError)
  /-- The mutator of an update panicked. -/
  | panicked

/-- What a step of a session answers. -/
inductive Answer where
  | done
  | flag (b : Bool)
  | count (n : Nat)
  /-- Stored bytes, if there are any. -/
  | bytes (stored : Option Bytes)
  /-- Records, where there are any. -/
  | records (found : List (Option Document))
  /-- A part of the records, and how many there are altogether. -/
  | page (records : List Document) (total : Nat)
  /-- The keys filed under each of some values. -/
  | lookup (found : OrderedMap Bytes (List Bytes))
  /-- What a scrub found. -/
  | report (report : IntegrityReport)
  /-- A description of a bucket. -/
  | info (handle : Handle)
  /-- What was done when a bucket was opened. -/
  | opened (reconciliation : Reconciliation)
  | names (names : List String)
  | store (store : Store)

/-- How a step of a session ends. -/
abbrev Outcome := Except Failure Answer

/-- How the end of a call ends a step. -/
def Failure.ofStop : Stop → Failure
  | .failed error => .bucket error
  | .panicked => .panicked

/-- A call that reads a bucket. -/
inductive Query where
  | info
  /-- The records of keys. -/
  | read (keys : List Bytes)
  /-- The stored bytes of a record. -/
  | readRaw (key : Bytes)
  /-- A part of the records in key order. -/
  | list (offset : Nat) (limit : Option Nat)
  /-- The keys filed under values in an index. -/
  | readIndex (index : String) (values : List Bytes)
  /-- Compare the indices with the records. -/
  | verify
  /-- How many records are stored. -/
  | size
  /-- Whether no record is stored. -/
  | isEmpty
  /-- Whether a record is stored. -/
  | contains (key : Bytes)
deriving DecidableEq, Repr

namespace Query

/-- Whether there is a cancellable form of the call. -/
def cancellable : Query → Bool
  | read _ | readRaw _ | list _ _ | readIndex _ _ | verify => true
  | info | size | isEmpty | contains _ => false

/-- Ask a bucket. -/
def ask {σ : Type} (h : Handle) : Query → Call σ Answer
  | info => return .info h
  | read keys => return .records (← h.bucket.read keys)
  | readRaw key => return .bytes (← h.bucket.readRaw key)
  | list offset limit => do
    let (records, total) ← h.bucket.list offset limit
    return .page records total
  | readIndex index values => return .lookup (← h.bucket.readIndex index values)
  | verify => return .report (← h.bucket.verify)
  | size => return .count (← h.bucket.size)
  | isEmpty => return .flag (← h.bucket.isEmpty)
  | contains key => return .flag (← h.bucket.contains key)

end Query

end IndexedStore
