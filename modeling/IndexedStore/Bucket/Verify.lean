import IndexedStore.Bucket.Basic
import IndexedStore.Index
import IndexedStore.Integrity

set_option autoImplicit false

/-! # Verifying a bucket

The scrub compares each active index with what the stored records call for. It reads all records
first and gathers the expected entries of every index; then it goes through the tables. An index
table that is absent is a finding; one of another kind is an error. -/

namespace IndexedStore.Bucket

open Call

variable {R σ : Type} [Record R] (b : Bucket R)

/-- The expected entries per index. -/
abbrev Expected := OrderedMap String (OrderedSet Bytes)

/-- Nothing expected in any of the indices. -/
def Expected.none (indices : List String) : Expected :=
  .ofList (indices.map (·, .empty))

/-- Expect the entries of a record in each of the indices. -/
def expectRecord (record : R) (expected : Expected) : List String → Call σ Expected
  | [] => pure expected
  | index :: rest => do
    let entries ← entriesOf record index
    let before := (expected.get? index).getD .empty
    expectRecord record (expected.insert index (before.union entries)) rest

/-- Expect the entries of all stored records. -/
def expectEach (expected : Expected) : List (Bytes × Bytes) → Call σ Expected
  | [] => pure expected
  | (_, bytes) :: rest => do
    look
    let record : R ← decode b.codec bytes
    let expected ← expectRecord record expected expected.keys
    expectEach expected rest

/-- Compare the table of an index with the expected entries. -/
def compareIndex (index : String) (expected : OrderedSet Bytes) : Call σ IndexIntegrity := do
  match (← store).readIndex index with
  | .error (.absent _) =>
    return ⟨index, true, expected.keys.filterMap CompositeKey.decode?, []⟩
  | .error error => fail (.table error)
  | .ok table =>
    lookEach table.keys
    return ⟨index, false, (expected.without table).filterMap CompositeKey.decode?,
      table.without expected⟩

/-- Compare the tables of indices with the expected entries. -/
def compareEach (expected : Expected) : List String → Call σ (List IndexIntegrity)
  | [] => pure []
  | index :: rest => do
    let finding ← compareIndex index ((expected.get? index).getD .empty)
    return finding :: (← compareEach expected rest)

/-- Log the findings of something wrong. -/
def logFindings : List IndexIntegrity → Call σ Unit
  | [] => pure ()
  | finding :: rest => do
    unless finding.consistent do
      log (.indexInconsistent finding.index finding.tableMissing finding.missing.length
        finding.orphaned.length)
    logFindings rest

/-- Compare every active index with the stored records. -/
def verify : Call σ IntegrityReport := do
  look
  let stored ← rows b.name
  let expected ← b.expectEach (.none b.indices) stored.toList
  let findings ← compareEach expected b.indices
  logFindings findings
  return ⟨stored.size, findings⟩

end IndexedStore.Bucket
