import IndexedStore.Config.Basic

set_option autoImplicit false

/-! # Schemas of the configurations

A JSON schema (draft 7) for each of the two configurations, for tools that write or check
configuration files. The descriptions are for the readers of such files. -/

namespace IndexedStore

namespace Schema

/-- A named document. -/
def entry (name : String) (value : Json) : Bytes × Json :=
  (Json.escape (Utf8.encode name), value)

/-- A named text. -/
def textEntry (name text : String) : Bytes × Json :=
  entry name (.ofText text)

/-- The dialect of the schemas. -/
def dialect : Bytes × Json :=
  textEntry "$schema" "http://json-schema.org/draft-07/schema#"

end Schema

open Schema

/-- What a bucket configuration means. -/
def BucketConfig.schemaDescription : String :=
  "Configuration of a single indexed bucket.\n\n`name` names the primary bucket; every "
    ++ "entry of `indices` names both an active index and the bucket backing it. The "
    ++ "metadata bucket is derived from `name` (see "
    ++ "[`IndexedBucketConfig::meta_bucket_name`]).\n\n# Validation Rules\n\n- `name` must "
    ++ "be non-empty - index names must be non-empty and unique - no index may share its "
    ++ "name with the primary or metadata bucket\n\n# Example\n\n```no_run # use "
    ++ "cairn_types::config::IndexedBucketConfig; let config = "
    ++ "IndexedBucketConfig::builder() .name(\"tasks\") "
    ++ ".indices(vec![\"by_status\".to_string()]) .build() .expect(\"valid bucket "
    ++ "config\"); ```"

/-- The schema of bucket configurations. -/
def BucketConfig.schema : Json :=
  .object
    [dialect,
      textEntry "title" "IndexedBucketConfig",
      textEntry "description" BucketConfig.schemaDescription,
      textEntry "type" "object",
      entry "required" (.array [.ofText "name"]),
      entry "properties" (.object
        [entry "indices" (.object
          [textEntry "description" "Active index names. Order is not significant.",
            entry "default" (.array []),
            textEntry "type" "array",
            entry "items" (.object [textEntry "type" "string"])]),
        entry "name" (.object
          [textEntry "description" "Primary bucket name.",
            textEntry "type" "string"])])]

/-- What an engine configuration means. -/
def EngineConfig.schemaDescription : String :=
  "Storage engine configuration.\n\n# Validation Rules\n\n- `cache_size_bytes` must be "
    ++ ">= 1 MB (1,048,576 bytes)\n\n# Example\n\n```no_run # use "
    ++ "cairn_types::config::EngineConfig; let config = EngineConfig::builder() "
    ++ ".cache_size_bytes(128 * 1024 * 1024) .build() .expect(\"valid engine config\"); ```"

/-- What the cache size means. -/
def EngineConfig.cacheSizeDescription : String :=
  "Maximum size of the page cache in bytes.\n\nMust be >= 1 MB (1,048,576 bytes) for "
    ++ "reasonable operation."

/-- The schema of engine configurations. -/
def EngineConfig.schema : Json :=
  .object
    [dialect,
      textEntry "title" "EngineConfig",
      textEntry "description" EngineConfig.schemaDescription,
      textEntry "type" "object",
      entry "properties" (.object
        [entry "cache_size_bytes" (.object
          [textEntry "description" EngineConfig.cacheSizeDescription,
            entry "default" (.ofNat ({} : EngineConfig).cacheSize.toNat),
            textEntry "type" "integer",
            textEntry "format" "uint",
            entry "minimum" (.number (Bytes.ofAscii "0.0"))])])]

end IndexedStore
