import IndexedStore.Disk

set_option autoImplicit false

/-! # Storage engines

An engine holds one open store, in memory or in a file. Opening a file that is not there or is empty
makes a new store; a file with other content than a store is refused, and so is the file of a store
that is open already, by whatever path. -/

namespace IndexedStore

/-- An open store. -/
structure Engine where
  /-- The name of the file it is in; a store in memory has none. -/
  file : Option String
  store : Store
deriving DecidableEq

namespace Engine

/-- An engine of a new store in memory. -/
def inMemory : Engine := ⟨none, .empty⟩

/-- An engine of the store in the file of a name, while another engine may be open. -/
def ofName (disk : Disk) (current : Option Engine) (name : String) : Except StorageError Engine :=
  if current.any (·.file = some name) then .error .locked
  else (disk.load name).map fun store => ⟨some name, store⟩

/-- An engine of the store in the file a path leads to, while another engine may be open. -/
def ofFile (disk : Disk) (current : Option Engine) (path : String) : Except EngineError Engine :=
  ((disk.locate path).bind (ofName disk current)).mapError (.opening path)

end Engine

/-- The files after an engine's store was written to its own. -/
def Disk.save (disk : Disk) (engine : Engine) : Disk :=
  match engine.file with
  | none => disk
  | some name => disk.put name (.store engine.store)

end IndexedStore
