import ReverseMcp.Rust.Outcome
import ReverseMcp.Rust.Text
import ReverseMcp.Rust.Json
import ReverseMcp.Core.Error
import ReverseMcp.Core.Backend
import ReverseMcp.Core.AnalysisIndex
import ReverseMcp.Ida.Mock
import ReverseMcp.Worker.Plan
import ReverseMcp.Worker.State
import ReverseMcp.Worker.Workflow
import ReverseMcp.Worker.Deep
import ReverseMcp.Worker.Crypto
import ReverseMcp.Worker.Types
import ReverseMcp.Worker.Valuean
import ReverseMcp.Worker.Transforms
import ReverseMcp.Worker.Deob
import ReverseMcp.Worker.Signatures
import ReverseMcp.Worker.Blockdiff
import ReverseMcp.Worker.Arms
import ReverseMcp.Worker.Dispatch
import ReverseMcp.Ida.Mutation
import ReverseMcp.Rust.Run
import ReverseMcp.Worker.Effects
import ReverseMcp.Worker.Revision
import ReverseMcp.Worker.Rollback
import ReverseMcp.Worker.AuditTrail
import ReverseMcp.Worker.Guard
import ReverseMcp.Worker.Validation
import ReverseMcp.Worker.Branches
import ReverseMcp.Worker.Junk
import ReverseMcp.Worker.Stores
import ReverseMcp.Worker.Freshness
import ReverseMcp.Rust.Reading
import ReverseMcp.Worker.CacheKeys
import ReverseMcp.Worker.CacheRuns
import ReverseMcp.Worker.Analyses
import ReverseMcp.Worker.Coherence
import ReverseMcp.Rust.Hex
import ReverseMcp.Ida.Totality
import ReverseMcp.Worker.Atomicity
import ReverseMcp.Broker.Jobs
import ReverseMcp.Broker.JobRuns
import ReverseMcp.Broker.JobStarts
import ReverseMcp.Core.ResultRuns
import ReverseMcp.Broker.Crash
import ReverseMcp.Broker.Recovery
import ReverseMcp.Broker.Deadlock
import ReverseMcp.Graph.Search
import ReverseMcp.Graph.Tarjan
import ReverseMcp.Broker.Preflight
import ReverseMcp.Broker.Regions
import ReverseMcp.Broker.RegionGraph
import ReverseMcp.Broker.RegionBorders
import ReverseMcp.Broker.GraphIndex
import ReverseMcp.Broker.RegionWindows
import ReverseMcp.Broker.Dataflow
import ReverseMcp.Broker.Convergence
import ReverseMcp.Broker.RegionCycles
import ReverseMcp.Worker.Resume
import ReverseMcp.Rust.Lines
import ReverseMcp.Core.Protocol
import ReverseMcp.Broker.Pump
import ReverseMcp.Broker.FrameReads
import ReverseMcp.Broker.Routing
import ReverseMcp.Broker.OpenDbs
import ReverseMcp.Broker.Tools
import ReverseMcp.Worker.Backends
import ReverseMcp.Broker.Background
import ReverseMcp.Broker.Batch
import ReverseMcp.Broker.Isolation
import ReverseMcp.Broker.IsolatedRuns
import ReverseMcp.Rust.Integers
import ReverseMcp.Wasm.Operator
import ReverseMcp.Wasm.Nesting
import ReverseMcp.Wasm.Ssa
import ReverseMcp.Wasm.Machine
import ReverseMcp.Wasm.Typing
import ReverseMcp.Wasm.Decoder
import ReverseMcp.Wasm.Values
import ReverseMcp.Wasm.SsaCoverage
import ReverseMcp.Wasm.Calls
import ReverseMcp.Wasm.Cfg
import ReverseMcp.Wasm.StructuredRegions
import ReverseMcp.Wasm.BranchTargets
import ReverseMcp.Wasm.Footprint
import ReverseMcp.Wasm.Meaning
import ReverseMcp.Ida.Discipline
import ReverseMcp.Wasm.Candidates
import ReverseMcp.Worker.Accounting
import ReverseMcp.Worker.Extents
import ReverseMcp.Worker.RulePacks
import ReverseMcp.Wasm.Overlay
import ReverseMcp.Wasm.Tables
import ReverseMcp.Wasm.Parsing
import ReverseMcp.Worker.Reader
import ReverseMcp.Worker.PatchRanges
import ReverseMcp.Ida.IdaLib
import ReverseMcp.Worker.Snapshots
import ReverseMcp.Worker.Exports
import ReverseMcp.Rust.Scan
import ReverseMcp.Worker.SigMap
import ReverseMcp.Wasm.Bodies
import ReverseMcp.Broker.WasmTools
import ReverseMcp.Graph.Layers
import ReverseMcp.Core.Queries
import ReverseMcp.Worker.CallPaths
import ReverseMcp.Worker.Neighborhoods
import ReverseMcp.Broker.Visits
import ReverseMcp.Broker.Schedule
import ReverseMcp.Worker.Sites
import ReverseMcp.Worker.Truncation
import ReverseMcp.Worker.ChangedBytes
import ReverseMcp.Graph.DepthFirst
import ReverseMcp.Worker.Coverage
import ReverseMcp.Worker.Progress
import ReverseMcp.Rust.Matching
import ReverseMcp.Worker.BlockMatching
import ReverseMcp.Worker.DiffCounts
import ReverseMcp.Worker.FunctionPairs
import ReverseMcp.Worker.FingerprintCover
import ReverseMcp.Worker.RenameProposals
import ReverseMcp.Wasm.Tally
import ReverseMcp.Wasm.IndexSpaces
import ReverseMcp.Wasm.ParseBounds
import ReverseMcp.Wasm.ValueFlow
import ReverseMcp.Wasm.UseDef
import ReverseMcp.Wasm.Folding
import ReverseMcp.Wasm.Braces
import ReverseMcp.Worker.SimilarityLaws
import ReverseMcp.Worker.Observers
import ReverseMcp.Ida.Restore
import ReverseMcp.Rust.Runs
import ReverseMcp.Worker.StackStrings
import ReverseMcp.Worker.CryptoScan
import ReverseMcp.Worker.Attribution
import ReverseMcp.Rust.Fields
import ReverseMcp.Core.Discovery
import ReverseMcp.Worker.ApiHashes
import ReverseMcp.Worker.ValueEvidence
import ReverseMcp.Worker.ConfirmedValues
import ReverseMcp.Worker.CallSites
import ReverseMcp.Rust.Merge
import ReverseMcp.Core.Installs
import ReverseMcp.Core.InstallOrder
import ReverseMcp.Core.InstallChoice
import ReverseMcp.Worker.HexDecoders
import ReverseMcp.Rust.Radix
import ReverseMcp.Worker.AddressTexts
import ReverseMcp.Worker.LostUpdates
import ReverseMcp.Broker.WorkerProcess
import ReverseMcp.Broker.Ledger
import ReverseMcp.Broker.Link
import ReverseMcp.Broker.Liveness
import ReverseMcp.Broker.Surface
import ReverseMcp.Broker.Serving
import ReverseMcp.Broker.Registry
import ReverseMcp.Broker.McpRuns
import ReverseMcp.Worker.Identify
import ReverseMcp.Ida.Graphs
import ReverseMcp.Ida.FlowCharts
import ReverseMcp.Ida.Indexing
import ReverseMcp.Broker.Frontier
import ReverseMcp.Broker.Hierarchy
