import TieredMemory.Backend.Basic
import TieredMemory.Backend.Directory
import TieredMemory.Backend.FlatMemory
import TieredMemory.Backend.Gate
import TieredMemory.Backend.PageFile
import TieredMemory.Block.Allocator
import TieredMemory.Block.BankSwitch
import TieredMemory.Block.Clipped
import TieredMemory.Block.Device
import TieredMemory.Block.Emulated
import TieredMemory.Block.Event
import TieredMemory.Block.Monitored
import TieredMemory.Block.Paged
import TieredMemory.Bytes
import TieredMemory.Config.Basic
import TieredMemory.Config.Environment
import TieredMemory.Config.Json
import TieredMemory.Counters
import TieredMemory.Decimal.Shortest
import TieredMemory.Error
import TieredMemory.Faults
import TieredMemory.Handles
import TieredMemory.Hierarchy
import TieredMemory.Index.Direct
import TieredMemory.Index.Ordered
import TieredMemory.Json.Decode
import TieredMemory.Json.Document
import TieredMemory.Json.Reader
import TieredMemory.Json.Stats
import TieredMemory.Json.Value
import TieredMemory.Main
import TieredMemory.Operation
import TieredMemory.Page.Cache
import TieredMemory.Page.Dirty
import TieredMemory.Page.Storage
import TieredMemory.Page.Tower
import TieredMemory.Recency.Arena
import TieredMemory.Recency.Cache
import TieredMemory.Soak
import TieredMemory.SparseBytes
import TieredMemory.Text.Blank
import TieredMemory.Text.Word
import TieredMemory.Version
import TieredMemory.Proofs.Index.Direct
import TieredMemory.Proofs.Index.Changes
import TieredMemory.Proofs.Outcome
import TieredMemory.Proofs.Alike
import TieredMemory.Proofs.History
import TieredMemory.Proofs.Lineage
import TieredMemory.Proofs.Recency.Ledger
import TieredMemory.Proofs.Recency.Requests
import TieredMemory.Proofs.Recency.Alike
import TieredMemory.Proofs.Recency.Items
import TieredMemory.Proofs.Recency.Interruption
import TieredMemory.Proofs.Recency.Failure
import TieredMemory.Proofs.Recency.Custody
import TieredMemory.Proofs.Recency.Recent
import TieredMemory.Proofs.Recency.Guarded
import TieredMemory.Proofs.Recency.Representation
import TieredMemory.Proofs.Backend.Contents
import TieredMemory.Proofs.Backend.Flat
import TieredMemory.Proofs.Backend.Recorder
import TieredMemory.Proofs.Backend.Layers
import TieredMemory.Proofs.Backend.Answers
import TieredMemory.Proofs.Block.Banks
import TieredMemory.Proofs.Block.Device
import TieredMemory.Proofs.Block.Paged
import TieredMemory.Proofs.Block.Room
import TieredMemory.Proofs.Block.Replay
import TieredMemory.Proofs.Block.Tenure
import TieredMemory.Proofs.Block.Crossings
import TieredMemory.Proofs.Page.Storage
import TieredMemory.Proofs.Block.Allocation
import TieredMemory.Proofs.Page.Pieces
import TieredMemory.Proofs.Page.Coherence
import TieredMemory.Proofs.Page.Replacement
import TieredMemory.Proofs.Page.Cache
import TieredMemory.Proofs.Page.Transport
import TieredMemory.Proofs.Page.Steps
import TieredMemory.Proofs.Page.Traffic
import TieredMemory.Proofs.Page.WriteBack
import TieredMemory.Proofs.Page.Residency
import TieredMemory.Proofs.Page.Layers
import TieredMemory.Proofs.Page.Tower
import TieredMemory.Proofs.Page.Failures
import TieredMemory.Proofs.Page.Alike
import TieredMemory.Proofs.Page.Independence
import TieredMemory.Proofs.Page.Leases
import TieredMemory.Proofs.Page.Ownership
import TieredMemory.Proofs.Page.Tenure
import TieredMemory.Proofs.Hierarchy
import TieredMemory.Proofs.Versions
import TieredMemory.Proofs.Handles.Calls
import TieredMemory.Proofs.Handles.LifeCycle
import TieredMemory.Proofs.Handles.Placement
import TieredMemory.Proofs.Handles.Isolation
import TieredMemory.Proofs.Backend.Service
import TieredMemory.Proofs.Backend.Transcript
import TieredMemory.Proofs.Backend.Growth
import TieredMemory.Proofs.Page.Books
import TieredMemory.Proofs.Page.Bookkeeping
import TieredMemory.Proofs.Page.Demand
import TieredMemory.Proofs.Page.Turns
import TieredMemory.Proofs.Page.Counters
import TieredMemory.Proofs.Page.Errors
import TieredMemory.Proofs.Page.Accesses
import TieredMemory.Proofs.Page.Consistency
import TieredMemory.Proofs.Service
import TieredMemory.Proofs.Counters
import TieredMemory.Proofs.Range
import TieredMemory.Proofs.Refusal
import TieredMemory.Proofs.Soak.Marks
import TieredMemory.Proofs.Soak.Verdict
import TieredMemory.Proofs.Text.Value
import TieredMemory.Proofs.Config.Environment
