import EezDashboard.Codec.Span
import EezDashboard.Codec.Endian
import EezDashboard.Codec.Varint
import EezDashboard.Codec.Except
import EezDashboard.Codec.Rlp
import EezDashboard.Codec.RunLength
import EezDashboard.Codec.Brackets
import EezDashboard.Blob.Rlp
import EezDashboard.Blob.Wire
import EezDashboard.Blob.Direct
import EezDashboard.Blob.DirectCanonical
import EezDashboard.Blob.Operations
import EezDashboard.Blob.Semantic
import EezDashboard.Blob.Stream
import EezDashboard.Blob.Forest
import EezDashboard.Blob.Native
import EezDashboard.Blob.Calls
import EezDashboard.Blob.Regions
import EezDashboard.Contract.Program
import EezDashboard.Contract.Execution
import EezDashboard.Contract.Abi
import EezDashboard.Treasury.Policy
import EezDashboard.Treasury.Accounting
import EezDashboard.Contract.Ledger
import EezDashboard.Treasury.Delegate
import EezDashboard.Treasury.Payment
import EezDashboard.Treasury.Routes
import EezDashboard.Treasury.Bridge
import EezDashboard.Treasury.Deposits
import EezDashboard.Trace.Frames
import EezDashboard.Trace.Boundary
import EezDashboard.Finite.Settle
import EezDashboard.Trace.Tree
import EezDashboard.Trace.Matching
import EezDashboard.Trace.Pairing
import EezDashboard.Trace.Truth
import EezDashboard.Trace.Completeness
import EezDashboard.Finite.Forest
import EezDashboard.Trace.Relocation
import EezDashboard.Monitor.Delivery
import EezDashboard.Jobs.Store
import EezDashboard.Jobs.Leases
import EezDashboard.Jobs.Slots
import EezDashboard.Jobs.Runs
import EezDashboard.Client.Payments
import EezDashboard.Client.Funding
import EezDashboard.Finite.Union
import EezDashboard.Flow.Frames
import EezDashboard.Flow.Linking
import EezDashboard.Flow.Soundness
import EezDashboard.Flow.Calls
import EezDashboard.Flow.Entries
import EezDashboard.Flow.Groups
import EezDashboard.Js.Json
import EezDashboard.Js.Hex
import EezDashboard.Fees.Quote
import EezDashboard.Fees.Binding
import EezDashboard.Setup.Journal
import EezDashboard.Setup.Saving
import EezDashboard.Setup.Runs
import EezDashboard.Monitor.Watcher
import EezDashboard.Monitor.Hydration
import EezDashboard.Blob.Derivable
import EezDashboard.Blob.Legacy
import EezDashboard.Blob.Collision
import EezDashboard.Finite.Journal
import EezDashboard.Trace.Generations
import EezDashboard.Finite.Chains
import EezDashboard.Flow.Alignment
import EezDashboard.Treasury.Batches
import EezDashboard.Debugger.History
import EezDashboard.Debugger.Reread
import EezDashboard.Remote.Dialogue
import EezDashboard.Setup.Tracking
import EezDashboard.Setup.Pinpoint
import EezDashboard.Monitor.Dashboard
import EezDashboard.Monitor.Page
import EezDashboard.Monitor.Freshness
import EezDashboard.Finite.Mask
import EezDashboard.Treasury.RuntimeCode
import EezDashboard.Finite.Linked
import EezDashboard.Treasury.Safe
import EezDashboard.Treasury.SafeCalls
import EezDashboard.Js.Bytes
import EezDashboard.Treasury.Approvals
import EezDashboard.Diagram.Rows
import EezDashboard.Bundles.Correlation
import EezDashboard.Bundles.Tables
import EezDashboard.Bundles.Architecture
import EezDashboard.Diagram.Gas
import EezDashboard.Analysis.Association
import EezDashboard.Analysis.Exclusivity
import EezDashboard.Finite.Listing
import EezDashboard.Diagram.Combined
import EezDashboard.Diagram.Delegates
import EezDashboard.Diagram.Represented
import EezDashboard.Diagram.Visits
import EezDashboard.Diagram.Shown
import EezDashboard.Rpc.Nearest
import EezDashboard.Remote.Pool
import EezDashboard.Rpc.Batch
import EezDashboard.Rpc.Aligned
import EezDashboard.Rpc.Complete
import EezDashboard.Client.History
import EezDashboard.Client.Retained
import EezDashboard.Verification.Worker
import EezDashboard.Verification.Capacity
import EezDashboard.Faucet.Request
import EezDashboard.Faucet.Refill
import EezDashboard.Faucet.Served
import EezDashboard.Links.Posting
import EezDashboard.Links.Records
import EezDashboard.Links.Validation
import EezDashboard.Links.Isolation
import EezDashboard.Setup.Confirmed
import EezDashboard.Setup.Groups
import EezDashboard.Setup.Predicted
import EezDashboard.Remote.Ensures
import EezDashboard.Client.Settlement
import EezDashboard.Client.Invoices
import EezDashboard.Client.Routes
import EezDashboard.Client.Ledger
import EezDashboard.Client.RolledBack
import EezDashboard.Client.Evidence
import EezDashboard.Client.Settled
import EezDashboard.Client.Paid
import EezDashboard.Client.Owners
