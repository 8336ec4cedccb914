import IndexedStore.Text.Quoted

set_option autoImplicit false

/-! # Events

What the library logs while it works. An event has a level, a message that is the same for all
events of its kind, and named values. -/

namespace IndexedStore

/-- How much an event matters. -/
inductive Level where
  /-- Of interest when looking for a fault. -/
  | debug
  | info
  /-- Something is not as it should be. -/
  | warn
deriving DecidableEq, Repr

/-- What happened. -/
inductive Event where
  /-- A store in a file was opened. -/
  | engineOpened (path : String) (cacheSize : UInt64)
  /-- Indices that a bucket had before are not configured any more. -/
  | indicesOrphaned (bucket : String) (orphaned : List String)
  /-- Indices were built from the stored records. -/
  | indicesBuilt (bucket : String) (rebuilt : List String) (records : Nat)
  /-- A bucket was opened; how many indices it has, and of them were built, and had before. -/
  | bucketOpened (indices rebuilt orphaned : Nat)
  | inserted (entriesAdded : Nat)
  | updated (entriesAdded entriesRemoved : Nat)
  | deleted (deleted entriesRemoved : Nat)
  /-- All indices of a bucket were built anew. -/
  | reindexed (records indices : Nat)
  /-- The table of an index that was to be read is missing. -/
  | indexMissing
  /-- A scrub found an index that is not what the records call for. -/
  | indexInconsistent (index : String) (tableMissing : Bool) (missing orphaned : Nat)
deriving DecidableEq, Repr

/-- The value of a field of an event. -/
inductive FieldValue where
  | number (n : Nat)
  | flag (b : Bool)
  | text (s : String)
deriving DecidableEq, Repr

namespace Event

/-- How much the event matters. -/
def level : Event → Level
  | engineOpened _ _ => .info
  | indicesOrphaned _ _ => .warn
  | indicesBuilt _ _ _ => .info
  | bucketOpened _ _ _ => .info
  | inserted _ => .debug
  | updated _ _ => .debug
  | deleted _ _ => .debug
  | reindexed _ _ => .info
  | indexMissing => .warn
  | indexInconsistent _ _ _ _ => .warn

/-- The event in words. -/
def message : Event → String
  | engineOpened _ _ => "Opened storage engine"
  | indicesOrphaned _ _ => "Indices removed from configuration; their tables are left in place"
  | indicesBuilt _ _ _ => "Built new or missing indices"
  | bucketOpened _ _ _ => "Opened indexed bucket"
  | inserted _ => "Inserted records"
  | updated _ _ => "Updated records"
  | deleted _ _ => "Deleted records"
  | reindexed _ _ => "Reindexed bucket"
  | indexMissing => "Index table missing; reindex required"
  | indexInconsistent _ _ _ _ => "Index inconsistent with primary records"

/-- The named values of the event. -/
def fields : Event → List (String × FieldValue)
  | engineOpened path cacheSize =>
    [("path", .text path), ("cache_size_bytes", .number cacheSize.toNat)]
  | indicesOrphaned bucket orphaned =>
    [("bucket", .text bucket), ("orphaned", .text (Quoted.list orphaned))]
  | indicesBuilt bucket rebuilt records =>
    [("bucket", .text bucket), ("rebuilt", .text (Quoted.list rebuilt)),
      ("records", .number records)]
  | bucketOpened indices rebuilt orphaned =>
    [("indices", .number indices), ("rebuilt", .number rebuilt), ("orphaned", .number orphaned)]
  | inserted entriesAdded => [("entries_added", .number entriesAdded)]
  | updated entriesAdded entriesRemoved =>
    [("entries_added", .number entriesAdded), ("entries_removed", .number entriesRemoved)]
  | deleted count entriesRemoved =>
    [("deleted", .number count), ("entries_removed", .number entriesRemoved)]
  | reindexed records indices => [("records", .number records), ("indices", .number indices)]
  | indexMissing => []
  | indexInconsistent index tableMissing missing orphaned =>
    [("index", .text index), ("table_missing", .flag tableMissing), ("missing", .number missing),
      ("orphaned", .number orphaned)]

end Event

end IndexedStore
