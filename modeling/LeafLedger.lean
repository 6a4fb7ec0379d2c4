import LeafLedger.Config
import LeafLedger.Ingest.Watch
import LeafLedger.Json.Printer
import LeafLedger.OffChain
import LeafLedger.Proofs.Address
import LeafLedger.Proofs.Borsh.Exactness
import LeafLedger.Proofs.Borsh.Streaming
import LeafLedger.Proofs.Config.Rendering
import LeafLedger.Proofs.Ingest.Acceptance
import LeafLedger.Proofs.Ingest.Catchup
import LeafLedger.Proofs.Ingest.Course
import LeafLedger.Proofs.Ingest.Interruption
import LeafLedger.Proofs.Ingest.PageCount
import LeafLedger.Proofs.Ingest.Settlement
import LeafLedger.Proofs.Instruction.Emission
import LeafLedger.Proofs.Instruction.Grammar
import LeafLedger.Proofs.Instruction.Truncation
import LeafLedger.Proofs.OffChain
import LeafLedger.Proofs.Refinement.InOrder
import LeafLedger.Proofs.Refinement.Replay
import LeafLedger.Proofs.Retry.Doubling
import LeafLedger.Proofs.Scan.CallTrees
import LeafLedger.Proofs.Scan.Isolation
import LeafLedger.Proofs.Scan.Numbering
import LeafLedger.Proofs.Scan.Warnings
import LeafLedger.Proofs.Store.Frame
import LeafLedger.Proofs.Store.LateMint
import LeafLedger.Proofs.Store.Retention
import LeafLedger.Proofs.Store.Wellformed
import LeafLedger.Proofs.Text.Trim
import LeafLedger.Proofs.Transaction.Alteration
import LeafLedger.Proofs.Transaction.Numbering
import LeafLedger.Proofs.Transaction.Turns
import LeafLedger.Store.Json
import LeafLedger.Transaction.Json
