import IndexedStore.Binary
import IndexedStore.Json.Form

set_option autoImplicit false

/-! # Configuration

A bucket is configured by its name and the names of its active indices; the name of its metadata
table follows from its own. `BucketConfig.validate` accepts a configuration when all these names are
non-empty and name different tables, and otherwise says what is wrong with the first name at fault.
A storage engine is configured by the size of its cache. -/

namespace IndexedStore

/-- What is wrong with a configuration. -/
inductive ConfigError where
  /-- The bucket has no name. -/
  | emptyName
  /-- An index of the bucket has no name. -/
  | emptyIndexName (bucket : String)
  /-- An index is named like the bucket or its metadata table. -/
  | collision (index : String)
  /-- An index is named twice. -/
  | duplicate (index : String)
  /-- The cache is too small. -/
  | smallCache (size : UInt64)
  /-- Anything else, in words. -/
  | other (text : String)
deriving DecidableEq, Repr

/-- The least size of a cache. -/
def minCacheSize : UInt64 := 1048576

/-- What is wrong, in words. -/
def ConfigError.detail : ConfigError → String
  | emptyName => "bucket name must not be empty"
  | emptyIndexName bucket => "index names of bucket " ++ bucket ++ " must not be empty"
  | collision index => "index " ++ index ++ " collides with a bucket of the same name"
  | duplicate index => "duplicate index name: " ++ index
  | smallCache size =>
    "cache_size_bytes must be >= " ++ toString minCacheSize.toNat ++ " (1 MB), got "
      ++ toString size.toNat
  | other text => text

/-- The error in words. -/
def ConfigError.message (error : ConfigError) : String :=
  "invalid config: " ++ error.detail

/-! ## Buckets -/

/-- The configuration of a bucket. -/
structure BucketConfig where
  /-- The name of the bucket and of its primary table. -/
  name : String
  /-- The active indices; each names its table too. -/
  indices : List String
deriving DecidableEq, Repr

/-- What the name of a metadata table ends in. -/
def metadataSuffix : String := "_meta"

namespace BucketConfig

/-- The name of the metadata table. -/
def metadataName (config : BucketConfig) : String :=
  config.name ++ metadataSuffix

/-- Look at the indices after those already `seen`. -/
def validateIndices (config : BucketConfig) (seen : List String) :
    List String → Except ConfigError Unit
  | [] => .ok ()
  | index :: rest =>
    if index = "" then .error (.emptyIndexName config.name)
    else if index = config.name ∨ index = config.metadataName then .error (.collision index)
    else if index ∈ seen then .error (.duplicate index)
    else config.validateIndices (index :: seen) rest

/-- Whether the configuration names a family of distinct tables. -/
def validate (config : BucketConfig) : Except ConfigError Unit :=
  if config.name = "" then .error .emptyName else config.validateIndices [] config.indices

end BucketConfig

instance : Json.Form BucketConfig where
  write config := .object [Json.member "name" config.name, Json.member "indices" config.indices]
  read? document :=
    match document with
    | .array [name] => do return ⟨← Json.Form.read? name, []⟩
    | .array [name, indices] => do return ⟨← Json.Form.read? name, ← Json.Form.read? indices⟩
    | document => do
      let members ← Json.members? document
      return ⟨← Json.field? "name" members, ← Json.fieldOr? [] "indices" members⟩

instance : Binary.Form BucketConfig where
  write config := Binary.Form.write config.name ++ Binary.Form.write config.indices
  take bytes := do
    let (name, rest) ← Binary.Form.take bytes
    let (indices, rest) ← Binary.Form.take rest
    return (⟨name, indices⟩, rest)

/-! ## Engines -/

/-- The configuration of a storage engine. -/
structure EngineConfig where
  /-- The size of the cache in bytes, 64 MB unless said otherwise. -/
  cacheSize : UInt64 := 67108864
deriving DecidableEq, Repr

namespace EngineConfig

/-- Whether the cache is large enough. -/
def validate (config : EngineConfig) : Except ConfigError Unit :=
  if config.cacheSize < minCacheSize then .error (.smallCache config.cacheSize) else .ok ()

end EngineConfig

instance : Json.Form EngineConfig where
  write config := .object [Json.member "cache_size_bytes" config.cacheSize]
  read? document :=
    match document with
    | .array [] => some {}
    | .array [size] => do return ⟨← Json.Form.read? size⟩
    | document => do
      let members ← Json.members? document
      return ⟨← Json.fieldOr? ({} : EngineConfig).cacheSize "cache_size_bytes" members⟩

instance : Binary.Form EngineConfig where
  write config := Binary.Form.write config.cacheSize
  take bytes := (Binary.Form.take bytes).map fun found => (⟨found.1⟩, found.2)

end IndexedStore
