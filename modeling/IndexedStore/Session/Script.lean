import IndexedStore.Bucket.Write
import IndexedStore.Session.Query
import IndexedStore.Store.Edit

set_option autoImplicit false

/-! # Scripts

The mutator of an update in a session is a script: a list of actions on the records it is handed,
carried out in their order until one fails. An action may change records, edit other tables within
the transaction, cancel the call's token, look at the committed state of the bucket, or panic. What
a script was handed and what it observed is noted, whatever becomes of the update. -/

namespace IndexedStore

/-- A change of one field of a document. Documents of the other kind stay as they are. -/
inductive Change where
  /-- The id of a task. -/
  | taskId (id : String)
  /-- The status of a task. -/
  | taskStatus (status : String)
  /-- The labels of a task. -/
  | taskTags (tags : List String)
  /-- The number of tries of a task. -/
  | taskAttempts (attempts : UInt32)
  /-- What a task belongs to. -/
  | taskParent (parent : Option UInt64)
  /-- The key of a blob. -/
  | blobKey (key : Bytes)
  /-- All fields of a blob. -/
  | blobFields (fields : OrderedMap String (List Bytes))
  /-- One field of a blob. -/
  | blobField (name : String) (values : List Bytes)

/-- The document after a change. -/
def Change.apply : Change → Document → Document
  | taskId id, .task t => .task { t with id }
  | taskStatus status, .task t => .task { t with status }
  | taskTags tags, .task t => .task { t with tags }
  | taskAttempts attempts, .task t => .task { t with attempts }
  | taskParent parent, .task t => .task { t with parent }
  | blobKey key, .blob b => .blob { b with key }
  | blobFields fields, .blob b => .blob { b with fields }
  | blobField name values, .blob b => .blob { b with fields := b.fields.insert name values }
  | _, document => document

/-- A step of a script. -/
inductive Action where
  /-- Fail if there is no record at a position. -/
  | require (i : Nat)
  /-- Change a field of one record. -/
  | set (i : Nat) (change : Change)
  /-- Change a field of every record. -/
  | setAll (change : Change)
  | replace (i : Nat) (record : Document)
  /-- Turn the records around. -/
  | reverse
  /-- Order the records by key. -/
  | sort
  /-- Replace one record by the one stored in a primary table under a key. -/
  | copy (i : Nat) (table : String) (key : Bytes)
  /-- Edit a table within the transaction. -/
  | edit (tableEdit : TableEdit)
  /-- Fail with a text. -/
  | fail (text : String)
  | cancel
  /-- Ask the bucket what is committed. -/
  | observe (query : Query)
  | panic

/-- What is noted of a script. -/
structure Notes where
  /-- What it was handed, if it ran. -/
  handed : Option (List Document) := none
  observed : List Outcome := []

/-- The running of a script. -/
abbrev Scripting (α : Type) := EStateM MutatorStop (Context Notes) α

namespace Scripting

/-- Fail with a text. -/
def fail {α : Type} (text : String) : Scripting α :=
  throw (.failed text)

/-- Fail with the words of an error. -/
def lift {ε α : Type} (message : ε → String) : Except ε α → Scripting α
  | .ok value => pure value
  | .error error => fail (message error)

/-- Replace the store of the transaction. -/
def setStore (store : Store) : Scripting Unit :=
  modify fun c => { c with store }

/-- Change the record at a position. -/
def change {n : Nat} (records : Slice Document n) (i : Nat) (f : Document → Document) :
    Scripting (Slice Document n) :=
  if i < n then return ⟨records.val.modify i f, by simp [records.property]⟩
  else fail ("no record " ++ toString i)

/-- The record that a primary table holds under a key. -/
def stored (h : Handle) (table : String) (key : Bytes) : Scripting Document := do
  let opened ← lift TableError.message ((← get).store.ensure .primary table)
  setStore opened
  let rows ← lift TableError.message (opened.readPrimary table)
  match rows.get? key with
  | none => fail "copy source missing"
  | some bytes => lift (fun e => (BucketError.codec e).message) (h.bucket.codec.decode bytes)

/-- Ask a bucket about a store, as a call without a token. -/
def observe (h : Handle) (committed : Store) (query : Query) : Scripting Unit := fun c =>
  let note (outcome : Outcome) (c' : Context Notes) : Context Notes :=
    { c' with
      store := c.store
      attentive := c.attentive
      carried := { c'.carried with observed := c'.carried.observed ++ [outcome] } }
  match query.ask h { c with store := committed, attentive := false } with
  | .ok answer c' => .ok () (note (.ok answer) c')
  | .error stop c' => .ok () (note (.error (.ofStop stop)) c')

end Scripting

open Scripting

/-- Carry out one action of an update of a bucket, when `committed` is the store before it. -/
def Action.run (h : Handle) (committed : Store) {n : Nat} (records : Slice Document n) :
    Action → Scripting (Slice Document n)
  | require i => Scripting.change records i id
  | set i change => Scripting.change records i change.apply
  | setAll change => return ⟨records.val.map change.apply, by simp [records.property]⟩
  | replace i record => Scripting.change records i fun _ => record
  | reverse => return ⟨records.val.reverse, by simp [records.property]⟩
  | sort =>
    return ⟨records.val.mergeSort fun r r' => keyLE (Record.key r) (Record.key r'),
      by simp [records.property]⟩
  | copy i table key => do
    let records ← Scripting.change records i id
    let record ← stored h table key
    Scripting.change records i fun _ => record
  | edit tableEdit => do
    let (_, store) ← lift TableError.message ((← get).store.apply tableEdit)
    setStore store
    return records
  | fail text => Scripting.fail text
  | cancel => do
    modify fun c => { c with cancelled := true }
    return records
  | observe query => do
    Scripting.observe h committed query
    return records
  | panic => throw .panicked

/-- Carry out actions in their order. -/
def Action.runEach (h : Handle) (committed : Store) {n : Nat} :
    List Action → Slice Document n → Scripting (Slice Document n)
  | [], records => pure records
  | action :: rest, records => do
    let records ← action.run h committed records
    runEach h committed rest records

/-- The mutator of a script, which notes what it is handed. -/
def Action.mutator (h : Handle) (committed : Store) (script : List Action) :
    Mutator Notes Document := fun _ records => do
  modify fun c => { c with carried := { c.carried with handed := some records.val } }
  Action.runEach h committed script records

end IndexedStore
