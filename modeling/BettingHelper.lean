import BettingHelper.Lib.Chain
import BettingHelper.Lib.Keyed
import BettingHelper.Store.Journal
import BettingHelper.Ingest.Ingestor
import BettingHelper.Ingest.Generations
import BettingHelper.Ingest.Clock
import BettingHelper.Delivery.InputJournal
import BettingHelper.Ingest.Refinement
import BettingHelper.Delivery.TailRepair
import BettingHelper.Delivery.Site
import BettingHelper.Delivery.Reconcile
import BettingHelper.Delivery.Replay
import BettingHelper.Delivery.Interrupted
import BettingHelper.Clock.Mapping
import BettingHelper.Ingest.Decision
import BettingHelper.Wire.Receiver
import BettingHelper.Lib.Json
import BettingHelper.Destruction.Plan
import BettingHelper.Destruction.Execute
import BettingHelper.Destruction.Safety
import BettingHelper.Destruction.Recovery
import BettingHelper.Lib.JsonAscii
import BettingHelper.Seal.Pack
import BettingHelper.Seal.Sealing
import BettingHelper.Seal.Sound
import BettingHelper.Seal.Steps
import BettingHelper.Seal.Reverify
import BettingHelper.Extension.StrictJson
import BettingHelper.Extension.Js
import BettingHelper.Extension.Canonical
import BettingHelper.Extension.Spool
import BettingHelper.Extension.SpoolCache
import BettingHelper.Extension.SpoolAppend
import BettingHelper.Ingest.LateRepair
import BettingHelper.Delivery.Outcomes
import BettingHelper.Delivery.ProcessBatch
import BettingHelper.Lib.JsonSize
import BettingHelper.Wire.FrameSchema
import BettingHelper.Wire.Encoding
import BettingHelper.Clock.Soundness
import BettingHelper.Lib.PyValue
import BettingHelper.Lib.Checked
import BettingHelper.Review.Authorization
import BettingHelper.Hashing.Preimage
import BettingHelper.Clock.Select
import BettingHelper.Lib.PyInt
import BettingHelper.Patch.Engines
import BettingHelper.Patch.Rfc
import BettingHelper.Authorization.Records
import BettingHelper.Authorization.Revocation
import BettingHelper.Authorization.Consumption
import BettingHelper.Clock.Raw
import BettingHelper.Clock.Validators
import BettingHelper.Governance.Graphs
import BettingHelper.Governance.Bands
import BettingHelper.Lib.PaddedBase64
import BettingHelper.Review.Namespace
import BettingHelper.Lib.Framing
import BettingHelper.Trees.Roots
import BettingHelper.Trees.Binding
import BettingHelper.Trees.Manifest
import BettingHelper.Ingest.NewRun
import BettingHelper.Lib.FileTree
import BettingHelper.Lib.JsonIndent
import BettingHelper.Vendor.Paths
import BettingHelper.Vendor.Sync
import BettingHelper.Vendor.Verify
import BettingHelper.Vendor.Copy
import BettingHelper.Vendor.Agreement
import BettingHelper.Retained.References
import BettingHelper.Retained.Artifacts
import BettingHelper.Retained.Inventory
import BettingHelper.Retained.Closure
