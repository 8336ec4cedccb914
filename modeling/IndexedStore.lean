import IndexedStore.Binary
import IndexedStore.Bucket.Basic
import IndexedStore.Bucket.Open
import IndexedStore.Bucket.Read
import IndexedStore.Bucket.Verify
import IndexedStore.Bucket.Write
import IndexedStore.Bytes
import IndexedStore.Call
import IndexedStore.Codec
import IndexedStore.CompositeKey
import IndexedStore.Config.Basic
import IndexedStore.Config.Schema
import IndexedStore.Decimal
import IndexedStore.Descriptor
import IndexedStore.Disk
import IndexedStore.Engine
import IndexedStore.Error.Bucket
import IndexedStore.Error.Code
import IndexedStore.Event
import IndexedStore.Index
import IndexedStore.Integrity
import IndexedStore.Json.Basic
import IndexedStore.Json.Form
import IndexedStore.Json.Reader
import IndexedStore.Json.Remark
import IndexedStore.OrderedMap
import IndexedStore.Proofs.Agreement
import IndexedStore.Proofs.Answers
import IndexedStore.Proofs.Batches
import IndexedStore.Proofs.Cancellation
import IndexedStore.Proofs.Collisions
import IndexedStore.Proofs.Compact
import IndexedStore.Proofs.CompositeKey
import IndexedStore.Proofs.Contents
import IndexedStore.Proofs.Drift
import IndexedStore.Proofs.Entries
import IndexedStore.Proofs.Filing
import IndexedStore.Proofs.Footprint
import IndexedStore.Proofs.Frames
import IndexedStore.Proofs.History
import IndexedStore.Proofs.Isolation
import IndexedStore.Proofs.Keeping
import IndexedStore.Proofs.Narrowing
import IndexedStore.Proofs.Opening
import IndexedStore.Proofs.Operations
import IndexedStore.Proofs.OrderedMap
import IndexedStore.Proofs.Quiet
import IndexedStore.Proofs.Rebuilding
import IndexedStore.Proofs.Reconciling
import IndexedStore.Proofs.RecordMap
import IndexedStore.Proofs.Reopening
import IndexedStore.Proofs.Repair
import IndexedStore.Proofs.Replacing
import IndexedStore.Proofs.Rollback
import IndexedStore.Proofs.Scrub
import IndexedStore.Proofs.Sharing
import IndexedStore.Proofs.Simulation
import IndexedStore.Proofs.Sparing
import IndexedStore.Proofs.Succession
import IndexedStore.Proofs.Tables
import IndexedStore.Proofs.Updating
import IndexedStore.Proofs.Within
import IndexedStore.Record.Basic
import IndexedStore.Record.Blob
import IndexedStore.Record.Card
import IndexedStore.Record.Document
import IndexedStore.Record.Task
import IndexedStore.Record.Word
import IndexedStore.Session.Basic
import IndexedStore.Session.Query
import IndexedStore.Session.Script
import IndexedStore.Store
import IndexedStore.Store.Edit
import IndexedStore.Text.Invisible
import IndexedStore.Text.Quoted
import IndexedStore.Text.Utf8
import IndexedStore.Varint
import IndexedStore.Proofs.Canonical
import IndexedStore.Proofs.SelfDelimiting
import IndexedStore.Proofs.Documents
import IndexedStore.Proofs.JsonRecords
import IndexedStore.Proofs.Locality
import IndexedStore.Proofs.Commuting
import IndexedStore.Proofs.Lookup
import IndexedStore.Proofs.Inserting
import IndexedStore.Proofs.Deleting
import IndexedStore.Proofs.Mutating
import IndexedStore.Proofs.Lengths
import IndexedStore.Proofs.Validation
import IndexedStore.Proofs.Paging
import IndexedStore.Proofs.Stepwise
import IndexedStore.Proofs.Undisturbed
import IndexedStore.Proofs.Counting
import IndexedStore.Proofs.Balance
