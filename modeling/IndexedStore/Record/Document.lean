import IndexedStore.Codec
import IndexedStore.Record.Blob
import IndexedStore.Record.Task

set_option autoImplicit false

/-! # Documents

A session keeps buckets of tasks beside buckets of blobs. A document is either; the codec of a
bucket reads one of the two kinds only. -/

namespace IndexedStore

/-- The kinds of documents. -/
inductive DocumentKind where
  | task
  | blob
deriving DecidableEq, Repr

/-- A record of either kind. -/
inductive Document where
  | task (task : Task)
  | blob (blob : Blob)
deriving DecidableEq

/-- The formats records are stored in. -/
inductive Format where
  | json
  | binary
deriving DecidableEq, Repr

instance : Record Document where
  key
    | .task task => Record.key task
    | .blob blob => Record.key blob
  indexValues
    | .task task => Record.indexValues task
    | .blob blob => Record.indexValues blob

/-- The codec of one kind of documents, given a codec of each. -/
def Document.codecOf (kind : DocumentKind) (tasks : Codec Task) (blobs : Codec Blob) :
    Codec Document where
  encode
    | .task record => tasks.encode record
    | .blob record => blobs.encode record
  decode bytes :=
    match kind with
    | .task => (tasks.decode bytes).map .task
    | .blob => (blobs.decode bytes).map .blob

/-- The codec of one kind of documents in a format. -/
def Document.codec (kind : DocumentKind) : Format → Codec Document
  | .json => codecOf kind (.json Task) (.json Blob)
  | .binary => codecOf kind (.binary Task) (.binary Blob)

end IndexedStore
