import IndexedStore.Bucket.Basic
import IndexedStore.Descriptor
import IndexedStore.Index

set_option autoImplicit false

/-! # Opening a bucket

Opening brings the tables in line with the configuration, in one transaction. The descriptor says
which indices were kept up to date until now: one that it does not name has missed changes, and one
without a table has nothing to show, so these are built from the stored records. The tables of
indices that are not configured any more are left as they are. At the end the descriptor names the
configured indices. -/

namespace IndexedStore

variable {R σ : Type}

/-- The configured indices that have to be built: those the descriptor before does not name, and
those without a table. -/
def BucketConfig.unbuilt (config : BucketConfig) (previous : Option Descriptor)
    (existing : List String) : List String :=
  config.indices.filter fun index =>
    !((previous.any (·.indices.contains index)) && existing.contains index)

/-- The indices of the descriptor before that are not configured any more. -/
def BucketConfig.unconfigured (config : BucketConfig) (previous : Option Descriptor) :
    List String :=
  match previous with
  | none => []
  | some descriptor => descriptor.indices.filter fun index => !config.indices.contains index

namespace Call

/-- The stored descriptor of a bucket, if there is one. -/
def descriptor (config : BucketConfig) : Call σ (Option Descriptor) := do
  let stored ← lift .table ((← store).readMetadata config.metadataName)
  match stored.get? Descriptor.rowKey with
  | none => return none
  | some bytes => return some (← lift id (Descriptor.ofBytes bytes))

variable [Record R]

/-- Build indices, if there are any to be built. The number of records read. -/
def build (config : BucketConfig) (codec : Codec R) (indices : List String) : Call σ Nat := do
  if indices.isEmpty then return 0
  let records ← rebuild config.name codec indices
  log (.indicesBuilt config.name indices records)
  return records

/-- Bring the tables of a bucket in line with its configuration. -/
def reconcile (config : BucketConfig) (codec : Codec R) : Call σ Reconciliation := do
  openTable .primary config.name
  openTable .metadata config.metadataName
  let previous ← descriptor config
  let rebuilt := config.unbuilt previous (← store).names
  let orphaned := config.unconfigured previous
  unless orphaned.isEmpty do log (.indicesOrphaned config.name orphaned)
  let recordsScanned ← build config codec rebuilt
  openTable .metadata config.metadataName
  edit (·.putMetadata config.metadataName Descriptor.rowKey
    (Descriptor.ofIndices config.indices).toBytes)
  return { previous := previous.map (·.indices), rebuilt, orphaned, recordsScanned }

/-- Open a bucket. -/
def openBucket (config : BucketConfig) (codec : Codec R) : Call σ (Bucket R) := do
  lift .config config.validate
  let reconciliation ← atomically (reconcile config codec)
  log (.bucketOpened config.indices.length reconciliation.rebuilt.length
    reconciliation.orphaned.length)
  return { config, codec, reconciliation }

end Call

end IndexedStore
