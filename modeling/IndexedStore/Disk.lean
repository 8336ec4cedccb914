import IndexedStore.Error.Bucket

set_option autoImplicit false

/-! # Files

The files that stores are kept in. They lie in one directory, which holds no other directory, and
have names. A path leads to one of them, step by step between its slashes: an empty step and the
step `.` stay where they are, so `f`, `./f` and `.//f` are paths of one file, which need not exist
yet. Every other path leads to no file, and `Disk.locate` says why. -/

namespace IndexedStore

/-- What a file holds. -/
inductive FileContent where
  | bytes (content : Bytes)
  | store (store : Store)
deriving DecidableEq

/-- The files of one directory by name. -/
structure Disk where
  files : OrderedMap String FileContent
deriving DecidableEq

namespace Disk

/-- The directory without files. -/
def empty : Disk := ⟨.empty⟩

/-! ## Paths -/

/-- The steps of a path: what stands before, between and after its slashes. -/
def splitSteps : List Char → List (List Char)
  | [] => [[]]
  | c :: rest =>
    if c = '/' then [] :: splitSteps rest
    else
      match splitSteps rest with
      | [] => [[c]]
      | step :: more => (c :: step) :: more

/-- The steps of a path as texts. -/
def steps (path : String) : List String :=
  (splitSteps path.toList).map String.ofList

/-- Whether a step leads from a directory to a directory. -/
def isDots (step : String) : Bool :=
  step = "" || step = "." || step = ".."

/-- The most bytes in the name of a file. -/
def maxNameLength : Nat := 255

/-- The most bytes in a path. -/
def maxPathLength : Nat := 4095

/-- Whether only slashes stand behind a name, which then asks for a directory. -/
def asksDirectory (rest : List String) : Bool :=
  rest ≠ [] && rest.all (· = "")

/-- Why a path that has left the directory leads to no file: it ends at a directory, or a name in it
is not known. -/
def beyond : List String → StorageError
  | [] => .isDirectory
  | step :: rest =>
    if isDots step then beyond rest
    else if asksDirectory rest then .isDirectory
    else if maxNameLength < step.utf8ByteSize then .nameTooLong
    else .notFound

/-- Follow steps from the directory to the name of a file. A step from a file leads nowhere. -/
def follow (disk : Disk) : List String → Except StorageError String
  | [] => .error .isDirectory
  | step :: rest =>
    if step = "" ∨ step = "." then disk.follow rest
    else if step = ".." then .error (beyond rest)
    else if asksDirectory rest then .error .isDirectory
    else if maxNameLength < step.utf8ByteSize then .error .nameTooLong
    else if rest = [] then .ok step
    else if disk.files.contains step then .error .notDirectory
    else .error .notFound

/-- The name of the file a path leads to. -/
def locate (disk : Disk) (path : String) : Except StorageError String :=
  if path.toList.contains '\x00' then .error .nulInPath
  else if path = "" then .error .notFound
  else if maxPathLength < path.utf8ByteSize then .error .nameTooLong
  else if path.toList.head? = some '/' then .error (beyond (steps path))
  else disk.follow (steps path)

/-! ## Contents -/

/-- Set the content of the file of a name. -/
def put (disk : Disk) (name : String) (content : FileContent) : Disk :=
  ⟨disk.files.insert name content⟩

/-- Set the content of the file that a path leads to, if it leads to one. -/
def write (disk : Disk) (path : String) (content : FileContent) : Disk :=
  match disk.locate path with
  | .ok name => disk.put name content
  | .error _ => disk

/-- The store in the file of a name, a new one if the file is absent or empty. -/
def load (disk : Disk) (name : String) : Except StorageError Store :=
  match disk.files.get? name with
  | none => .ok .empty
  | some (.bytes []) => .ok .empty
  | some (.bytes _) => .error .foreign
  | some (.store store) => .ok store

end Disk

end IndexedStore
