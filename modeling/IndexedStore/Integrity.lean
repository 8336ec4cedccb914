import IndexedStore.Bytes

set_option autoImplicit false

/-! # Integrity reports

What a scrub of a bucket finds: for each active index, the entries that the stored records call for
and that are not there, and the entries that are there and that no record calls for. -/

namespace IndexedStore

/-- What is wrong with one index. -/
structure IndexIntegrity where
  index : String
  /-- Whether its table is absent. -/
  tableMissing : Bool
  /-- The entries that are not there, as value and record key. -/
  missing : List (Bytes × Bytes)
  /-- The entries no record calls for, as they are stored. -/
  orphaned : List Bytes
deriving DecidableEq, Repr

namespace IndexIntegrity

/-- How much is wrong with the index. -/
def issueCount (finding : IndexIntegrity) : Nat :=
  finding.missing.length + finding.orphaned.length + if finding.tableMissing then 1 else 0

/-- Whether the index is what the records call for. -/
def consistent (finding : IndexIntegrity) : Bool :=
  !finding.tableMissing && finding.missing.isEmpty && finding.orphaned.isEmpty

end IndexIntegrity

/-- What is wrong with a bucket. -/
structure IntegrityReport where
  /-- How many records are stored. -/
  records : Nat
  /-- A finding per active index. -/
  indices : List IndexIntegrity
deriving DecidableEq, Repr

namespace IntegrityReport

/-- How much is wrong with the bucket. -/
def issueCount (report : IntegrityReport) : Nat :=
  report.indices.foldr (fun finding count => finding.issueCount + count) 0

/-- Whether every index is what the records call for. -/
def consistent (report : IntegrityReport) : Bool :=
  report.indices.all (·.consistent)

end IntegrityReport

end IndexedStore
