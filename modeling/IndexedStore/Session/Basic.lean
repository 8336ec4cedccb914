import IndexedStore.Bucket.Open
import IndexedStore.Engine
import IndexedStore.Session.Script

set_option autoImplicit false

/-! # Sessions

A session has a directory of files, at most one open engine, and buckets of its store under handles.
`Session.step` carries out one step: it answers, says what was logged and, for an update, what was
noted of its script, and yields the session after it. A step that fails changes nothing. -/

namespace IndexedStore

/-! ## Steps -/

/-- A disturbance that a step asks for: at the `nth` time that codec or record is called, counted
from one, the token is cancelled or the codec fails. -/
structure Hook where
  /-- The call in question. -/
  point : Point
  /-- Which of these calls. -/
  nth : Nat
  /-- Whether the codec fails; otherwise the token is cancelled. -/
  fails : Bool
deriving DecidableEq, Repr

/-- How a codec of a format fails when it is made to. -/
def Format.failure? : Format → Point → Option CodecError
  | .json, .encode => some (.jsonEncode (.ofText "boom"))
  | .json, .decode => some (.jsonDecode (.other (.ofText "boom")))
  | .binary, .encode => some (.encode .bufferFull)
  | .binary, .decode => some (.decode .badChecksum)
  | _, _ => none

/-- The alarm of a hook on a bucket of a format. -/
def Hook.alarm? (format : Format) (hook : Hook) : Option Alarm :=
  match hook.nth with
  | 0 => none
  | delay + 1 => do
    let reaction ← if hook.fails then (format.failure? hook.point).map .fail else some .cancel
    return ⟨hook.point, delay, reaction⟩

/-- How a call on a bucket is made. -/
structure Manner where
  /-- Whether the cancellable form is called, with a token. -/
  cancellable : Bool := false
  /-- Whether the token is cancelled before. -/
  cancelled : Bool := false
  /-- What disturbs the call. -/
  hook : Option Hook := none
deriving DecidableEq, Repr

/-- A call on a bucket. -/
inductive Request where
  | query (query : Query)
  | insert (records : List Document)
  /-- Update records by a script. -/
  | update (records : List Document) (script : List Action)
  /-- Delete the records of keys. -/
  | delete (keys : List Bytes)
  /-- Build the indices anew. -/
  | reindex

/-- A step on the open store. -/
inductive StoreStep where
  /-- Open a bucket under a handle. -/
  | openBucket (handle : String) (config : BucketConfig) (kind : DocumentKind) (format : Format)
      (hook : Option Hook)
  | clone (handle copy : String)
  /-- The names of all tables. -/
  | tableNames
  | dump
  /-- Edit a table from outside. -/
  | edit (tableEdit : TableEdit)
  | call (handle : String) (manner : Manner) (request : Request)

/-- A step of a session. -/
inductive Step where
  /-- Open a store, in a file or in memory. -/
  | engineOpen (path : Option String) (config : EngineConfig)
  | engineClose
  | writeFile (path : String) (content : Bytes)
  /-- A step on the open store. -/
  | store (step : StoreStep)

/-- What a step yields besides the session after it. -/
structure StepResult where
  outcome : Outcome
  /-- What was noted of the script of an update. -/
  notes : Option Notes := none
  log : List Event := []

/-! ## Requests -/

namespace Request

/-- Whether there is a cancellable form of the call. -/
def cancellable : Request → Bool
  | query q => q.cancellable
  | _ => true

/-- Whether the call runs a script. -/
def scripted : Request → Bool
  | update _ _ => true
  | _ => false

/-- Call a bucket, when `committed` is the store before. -/
def run (h : Handle) (committed : Store) : Request → Call Notes Answer
  | query q => q.ask h
  | insert records => do
    h.bucket.insert records
    return .done
  | update records script => do
    h.bucket.update records (Action.mutator h committed script)
    return .done
  | delete keys => do
    h.bucket.delete keys
    return .done
  | reindex => do
    h.bucket.reindex
    return .done

/-- Call a bucket in one of the two manners. -/
def perform (h : Handle) (manner : Manner) (committed : Store) (request : Request) :
    StepResult × Store :=
  let attentive := manner.cancellable && request.cancellable
  let call := request.run h committed
  let start : Context Notes :=
    { store := committed, attentive, cancelled := manner.cancelled,
      alarm := manner.hook.bind (Hook.alarm? h.format), log := [], carried := {} }
  match (if attentive then call.offloaded else call) start with
  | .ok answer c =>
    ({ outcome := .ok answer, notes := if request.scripted then some c.carried else none,
       log := c.log }, c.store)
  | .error stop c =>
    ({ outcome := .error (.ofStop stop),
       notes := if request.scripted then some c.carried else none, log := c.log }, c.store)

end Request

/-! ## Sessions -/

/-- The state of a session. -/
structure Session where
  disk : Disk
  engine : Option Engine
  /-- The buckets by handle, the latest first. -/
  handles : List (String × Handle)

namespace Session

/-- A session with an open store in memory. -/
def inMemory : Session := ⟨.empty, some .inMemory, []⟩

/-- A session without an open store. -/
def closed : Session := ⟨.empty, none, []⟩

/-- The bucket under a handle. -/
def handle? (s : Session) (handle : String) : Option Handle :=
  s.handles.lookup handle

/-- The open store. -/
def store? (s : Session) : Option Store :=
  s.engine.map (·.store)

/-- The files, with the open store written to its own. -/
def settled (s : Session) : Disk :=
  match s.engine with
  | none => s.disk
  | some engine => s.disk.save engine

/-- Open a store instead of the open one. -/
def engineOpen (s : Session) (path : Option String) (config : EngineConfig) :
    StepResult × Session :=
  let opened : Except EngineError Engine :=
    match path with
    | none => .ok .inMemory
    | some path => Engine.ofFile s.disk s.engine path
  match opened with
  | .error error => ({ outcome := .error (.engine error) }, s)
  | .ok engine =>
    ({ outcome := .ok .done,
       log := (path.map fun path => Event.engineOpened path config.cacheSize).toList },
      ⟨s.settled.save engine, some engine, []⟩)

/-- Open a bucket of the open store. -/
def openBucket (s : Session) (engine : Engine) (handle : String) (config : BucketConfig)
    (kind : DocumentKind) (format : Format) (hook : Option Hook) : StepResult × Session :=
  let start : Context Unit :=
    { Call.quiet engine.store [] () with alarm := hook.bind (Hook.alarm? format) }
  match Call.openBucket config (Document.codec kind format) start with
  | .ok bucket c =>
    ({ outcome := .ok (.opened bucket.reconciliation), log := c.log },
      { s with
        engine := some { engine with store := c.store }
        handles := (handle, ⟨bucket, kind, format⟩) :: s.handles })
  | .error stop c =>
    ({ outcome := .error (.ofStop stop), log := c.log },
      { s with engine := some { engine with store := c.store } })

/-- Carry out a step on the open store. -/
def storeStep (s : Session) (engine : Engine) : StoreStep → StepResult × Session
  | .openBucket handle config kind format hook =>
    s.openBucket engine handle config kind format hook
  | .clone handle copy =>
    match s.handle? handle with
    | none => ({ outcome := .error .noBucket }, s)
    | some h => ({ outcome := .ok .done }, { s with handles := (copy, h) :: s.handles })
  | .tableNames => ({ outcome := .ok (.names engine.store.names) }, s)
  | .dump => ({ outcome := .ok (.store engine.store) }, s)
  | .edit tableEdit =>
    match engine.store.apply tableEdit with
    | .error error => ({ outcome := .error (.table error) }, s)
    | .ok (existed, store) =>
      ({ outcome := .ok (.flag existed) }, { s with engine := some { engine with store } })
  | .call handle manner request =>
    match s.handle? handle with
    | none => ({ outcome := .error .noBucket }, s)
    | some h =>
      let (result, store) := request.perform h manner engine.store
      (result, { s with engine := some { engine with store } })

/-- Carry out a step. -/
def step (s : Session) : Step → StepResult × Session
  | .engineOpen path config => s.engineOpen path config
  | .engineClose => ({ outcome := .ok .done }, ⟨s.settled, none, []⟩)
  | .writeFile path content =>
    ({ outcome := .ok .done }, { s with disk := s.disk.write path (.bytes content) })
  | .store step =>
    match s.engine with
    | none => ({ outcome := .error .noEngine }, s)
    | some engine => s.storeStep engine step

end Session

end IndexedStore
