import IndexedStore.Bucket.Read
import IndexedStore.Bucket.Verify
import IndexedStore.Bucket.Write

set_option autoImplicit false

/-! # Calls as values

What is proved of all calls on a bucket is proved of the values that name them: `Write` are the calls
that change a bucket, `Operation` all that have a cancellable form. The one thing in them that is not
the library's is the mutator of an update, so what has to be assumed of a call is said of its mutators
(`Operation.Mutators`). -/

namespace IndexedStore

variable {R σ α : Type}

/-! ## Calls that change a bucket -/

/-- A call that changes a bucket. -/
inductive Write (σ R : Type) where
  /-- Insert records. -/
  | insert (records : List R)
  /-- Update the stored copies of records. -/
  | update (records : List R) (mutator : Mutator σ R)
  /-- Delete the records of keys. -/
  | delete (keys : List Bytes)
  /-- Build every active index anew. -/
  | reindex

namespace Write

/-- Carry out a call that changes a bucket. -/
def call [Record R] (b : Bucket R) : Write σ R → Call σ Unit
  | insert records => b.insert records
  | update records mutator => b.update records mutator
  | delete keys => b.delete keys
  | reindex => b.reindex

/-- The mutators of a call are as said. -/
def Mutators (p : Mutator σ R → Prop) : Write σ R → Prop
  | update _ mutator => p mutator
  | insert _ | delete _ | reindex => True

theorem Mutators.imp {p q : Mutator σ R → Prop} (h : ∀ mutator, p mutator → q mutator)
    {w : Write σ R} (hw : w.Mutators p) : w.Mutators q := by
  cases w with
  | update records mutator => exact h mutator hw
  | insert records | delete keys | reindex => exact hw

end Write

/-! ## Calls on a bucket -/

/-- A call on a bucket that has a cancellable form, by what it answers. -/
inductive Operation (σ R : Type) : Type → Type where
  /-- Change the bucket. -/
  | write (write : Write σ R) : Operation σ R Unit
  /-- The records of keys. -/
  | read (keys : List Bytes) : Operation σ R (List (Option R))
  /-- The stored bytes of a record. -/
  | readRaw (key : Bytes) : Operation σ R (Option Bytes)
  /-- A part of the records in key order. -/
  | list (offset : Nat) (limit : Option Nat) : Operation σ R (List R × Nat)
  /-- The keys filed under values in an index. -/
  | readIndex (index : String) (values : List Bytes) :
      Operation σ R (OrderedMap Bytes (List Bytes))
  /-- Compare the indices with the records. -/
  | verify : Operation σ R IntegrityReport

namespace Operation

/-- Carry out a call on a bucket. -/
def call [Record R] (b : Bucket R) : Operation σ R α → Call σ α
  | write w => w.call b
  | read keys => b.read keys
  | readRaw key => b.readRaw key
  | list offset limit => b.list offset limit
  | readIndex index values => b.readIndex index values
  | verify => b.verify

/-- The mutators of a call are as said. -/
def Mutators (p : Mutator σ R → Prop) : Operation σ R α → Prop
  | write w => w.Mutators p
  | read _ | readRaw _ | list _ _ | readIndex _ _ | verify => True

theorem Mutators.imp {p q : Mutator σ R → Prop} (h : ∀ mutator, p mutator → q mutator)
    {op : Operation σ R α} (hop : op.Mutators p) : op.Mutators q := by
  cases op with
  | write w => exact Write.Mutators.imp h hop
  | read _ | readRaw _ | list _ _ | readIndex _ _ | verify => exact hop

end Operation

/-! ## Parts of an update -/

namespace Bucket

theorem mutate_eq (mutator : Mutator σ R) (records : List R) (c : Context σ) :
    mutate mutator records c = match mutator records.length (.whole records) c with
      | .ok mutated c' => .ok mutated.val c'
      | .error stop c' => .error stop.toStop c' := by
  unfold mutate
  cases hrun : mutator records.length (.whole records) c with
  | ok mutated c' =>
    have hadapted : EStateM.adaptExcept MutatorStop.toStop
        (mutator records.length (.whole records)) c = .ok mutated c' := by
      simp only [EStateM.adaptExcept, hrun]
    exact Call.bind_ok hadapted
  | error stop c' =>
    have hadapted : EStateM.adaptExcept MutatorStop.toStop
        (mutator records.length (.whole records)) c = .error stop.toStop c' := by
      simp only [EStateM.adaptExcept, hrun]
    exact Call.bind_error hadapted

/-- A mutator that ended with records was handed as many. -/
theorem of_mutate {mutator : Mutator σ R} {records mutated : List R} {c c' : Context σ}
    (h : mutate mutator records c = .ok mutated c') :
    ∃ slice, mutator records.length (.whole records) c = .ok slice c' ∧ slice.val = mutated := by
  rw [mutate_eq] at h
  split at h
  · next slice _ hrun =>
    cases h
    exact ⟨slice, hrun, rfl⟩
  · cases h

variable [Record R] (b : Bucket R)

/-- What an update does with what the mutator made of the stored copies. -/
def replace (stored : List R) (before : List (OrderedSet Bytes)) (mutated : List R) :
    Call σ (Nat × Nat) := do
  if let some (old, new) := firstDifference? (sortedKeys stored) (sortedKeys mutated) then
    Call.fail (.keyMutated old new)
  let after ← entriesByIndex mutated b.indices
  Call.openTable .primary b.name
  Call.openIndices b.indices
  let counts ← refileEntries b.indices before after
  b.storeEach mutated
  Call.look
  return counts

/-- An update reads, lets the mutator work, and replaces. -/
theorem update_eq (records : List R) (mutator : Mutator σ R) :
    b.update records mutator = (do
      Call.look
      let counts ← Call.atomically do
        Call.openTable .primary b.name
        let stored ← b.fetchEach [] records
        let before ← entriesByIndex stored b.indices
        Call.look
        let mutated ← mutate mutator stored
        b.replace stored before mutated
      Call.log (.updated counts.1 counts.2)) := rfl

end Bucket

end IndexedStore
