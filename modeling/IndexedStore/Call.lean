import IndexedStore.Error.Bucket
import IndexedStore.Event

set_option autoImplicit false

/-! # Calls

A call on a bucket is a computation over a `Context`: the store it reads and edits, the cancellation
token, the log, and what the caller's own code carries along. It ends with a value, with an error,
or because the caller's code panicked, and the context it ends with is known in each case.

## Cancellation

The token matters only where a call looks at it (`look`). A call that was given no token is not
`attentive`: it looks and sees nothing. So a synchronous call and a cancellable one are the same
program in two contexts.

## The caller's code

Codecs, records and mutators are the caller's. They do not see the context, but while they run the
token may be cancelled, and a codec may fail for reasons of its own. An `Alarm` says when: at which
passage through a `Point` which `Reaction` takes place. Since the points where a call looks at the
token are among them, an alarm can cancel a call at any moment that the call can tell from another.
Without an alarm, and with a token that nobody looks at, `pass` and `look` do nothing at all
(`pass_quiet`, `look_quiet`). -/

namespace IndexedStore

/-! ## Context -/

/-- Where the caller's code runs or a call looks at its token. -/
inductive Point where
  /-- A record is about to be encoded. -/
  | encode
  /-- A record is about to be decoded. -/
  | decode
  /-- A record is about to be asked for its values in an index. -/
  | index
  /-- The token is about to be looked at. -/
  | look
deriving DecidableEq, Repr

/-- What happens at a point. -/
inductive Reaction where
  /-- The token is cancelled. -/
  | cancel
  | fail (error : CodecError)
deriving DecidableEq, Repr

/-- A reaction that takes place once. -/
structure Alarm where
  /-- Where it takes place. -/
  point : Point
  /-- How many passages through that point come before. -/
  delay : Nat
  reaction : Reaction
deriving DecidableEq, Repr

/-- What a call works on, and what `σ` the caller's own code carries along. -/
structure Context (σ : Type) where
  /-- The store as the call sees it. -/
  store : Store
  /-- Whether the call was given a token to look at. -/
  attentive : Bool
  /-- Whether the token is cancelled. -/
  cancelled : Bool
  /-- The reaction that is still to come. -/
  alarm : Option Alarm
  /-- What was logged, in order. -/
  log : List Event
  /-- What the caller's code carries along. -/
  carried : σ

/-- Why a call ends without a value. -/
inductive Stop where
  | failed (error : BucketError)
  /-- The caller's code panicked. -/
  | panicked
deriving DecidableEq, Repr

/-- A computation over a context that may stop. -/
abbrev Call (σ α : Type) := EStateM Stop (Context σ) α

namespace Call

variable {σ α : Type}

/-! ## Steps -/

/-- Stop with an error. -/
def fail (error : BucketError) : Call σ α :=
  throw (.failed error)

/-- Stop if a result is an error, which `wrap` places among those of a bucket. -/
def lift {ε : Type} (wrap : ε → BucketError) : Except ε α → Call σ α
  | .ok value => pure value
  | .error error => fail (wrap error)

/-- Write to the log. -/
def log (event : Event) : Call σ Unit :=
  modify fun c => { c with log := c.log ++ [event] }

/-- The store as the call sees it. -/
def store : Call σ Store :=
  return (← get).store

/-- Change the store as the call sees it. -/
def edit (f : Store → Store) : Call σ Unit :=
  modify fun c => { c with store := f c.store }

/-- Change the store as the call sees it, or stop if the change is refused. -/
def change (f : Store → Except BucketError Store) : Call σ Unit := do
  let changed ← lift id (f (← store))
  edit fun _ => changed

/-- Pass a point, where a reaction may take place. -/
def pass (point : Point) : Call σ Unit := fun c =>
  match c.alarm with
  | none => .ok () c
  | some alarm =>
    if alarm.point = point then
      match alarm.delay with
      | delay + 1 => .ok () { c with alarm := some { alarm with delay } }
      | 0 =>
        match alarm.reaction with
        | .cancel => .ok () { c with alarm := none, cancelled := true }
        | .fail error => .error (.failed (.codec error)) { c with alarm := none }
    else .ok () c

/-- Look at the token. -/
def look : Call σ Unit := do
  pass .look
  let c ← get
  if c.attentive && c.cancelled then fail .cancelled

/-- Encode a record. -/
def encode {R : Type} (codec : Codec R) (record : R) : Call σ Bytes := do
  pass .encode
  lift .codec (codec.encode record)

/-- Decode a record. -/
def decode {R : Type} (codec : Codec R) (bytes : Bytes) : Call σ R := do
  pass .decode
  lift .codec (codec.decode bytes)

/-- Look at the token once per member of a list. -/
def lookEach {β : Type} : List β → Call σ Unit
  | [] => pure ()
  | _ :: rest => do
    look
    lookEach rest

/-! ## Transactions and tokens -/

/-- Run a call as one transaction: its edits of the store stay if it ends with a value, and all of
them are undone if it stops. -/
def atomically (call : Call σ α) : Call σ α := fun c =>
  match call c with
  | .ok value c' => .ok value c'
  | .error stop c' => .error stop { c' with store := c.store }

/-- Run a call on behalf of a caller with a token: look at the token before, and report a panic of
the caller's code as an error. -/
def offloaded (call : Call σ α) : Call σ α := fun c =>
  match (do look; call : Call σ α) c with
  | .error .panicked c' => .error (.failed (.internal "blocking task failed: task panicked")) c'
  | ended => ended

/-! ## How calls run

A call that is put together runs its first part, and the rest in the context that this ends with. -/

variable {β : Type}

theorem bind_ok {x : Call σ α} {f : α → Call σ β} {c c' : Context σ} {a : α}
    (h : x c = .ok a c') : (x >>= f) c = f a c' := by
  show EStateM.bind x f c = f a c'
  simp only [EStateM.bind, h]

theorem bind_error {x : Call σ α} {f : α → Call σ β} {c c' : Context σ} {stop : Stop}
    (h : x c = .error stop c') : (x >>= f) c = .error stop c' := by
  show EStateM.bind x f c = .error stop c'
  simp only [EStateM.bind, h]

theorem store_run (c : Context σ) : (store : Call σ Store) c = .ok c.store c := rfl

theorem edit_run (f : Store → Store) (c : Context σ) :
    (edit f : Call σ Unit) c = .ok () { c with store := f c.store } := rfl

theorem change_run {f : Store → Except BucketError Store} {c : Context σ} {s : Store}
    (h : f c.store = .ok s) : (change f : Call σ Unit) c = .ok () { c with store := s } := by
  rw [change, bind_ok (store_run c), h]
  rfl

theorem change_refused {f : Store → Except BucketError Store} {c : Context σ} {error : BucketError}
    (h : f c.store = .error error) :
    (change f : Call σ Unit) c = .error (.failed error) c := by
  rw [change, bind_ok (store_run c), h]
  rfl

/-- A change that is never refused. -/
theorem edit_eq_change (f : Store → Store) :
    (edit f : Call σ Unit) = change fun s => .ok (f s) := rfl

theorem log_run (event : Event) (c : Context σ) :
    (log event : Call σ Unit) c = .ok () { c with log := c.log ++ [event] } := rfl

theorem fail_run (error : BucketError) (c : Context σ) :
    (fail error : Call σ α) c = .error (.failed error) c := rfl

/-! ## Quiet contexts -/

/-- A context in which no call is disturbed: no reaction is to come and no token is looked at. -/
def quiet (store : Store) (log : List Event) (carried : σ) : Context σ :=
  { store, attentive := false, cancelled := false, alarm := none, log, carried }

@[simp] theorem pass_quiet (point : Point) (s : Store) (l : List Event) (x : σ) :
    pass point (quiet s l x) = .ok () (quiet s l x) := rfl

@[simp] theorem look_quiet (s : Store) (l : List Event) (x : σ) :
    look (quiet s l x) = .ok () (quiet s l x) := rfl

end Call

end IndexedStore
