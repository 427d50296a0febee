import MeridianMcp.Text
import MeridianMcp.Effects.Prog
import MeridianMcp.Effects.FinMap
import MeridianMcp.Effects.FileSystem
import MeridianMcp.Effects.FsOps
import MeridianMcp.Effects.FsProg
import MeridianMcp.Effects.Links
import MeridianMcp.Effects.Events
import MeridianMcp.Effects.Crash
import MeridianMcp.Effects.Interleave
import MeridianMcp.Effects.Trace
import MeridianMcp.PrivateState.Store
import MeridianMcp.PrivateState.Read
import MeridianMcp.PrivateState.Records
import MeridianMcp.PrivateState.Install
import MeridianMcp.PrivateState.Acceptance
import MeridianMcp.PrivateState.Outcome
import MeridianMcp.PrivateState.CrashPoints
import MeridianMcp.AtomicOutput.Publish
import MeridianMcp.AtomicOutput.Resolve
import MeridianMcp.AtomicOutput.Install
import MeridianMcp.AtomicOutput.Publication
import MeridianMcp.AtomicOutput.Overwrite
import MeridianMcp.AtomicOutput.Exclusive
import MeridianMcp.WorkspaceIntegrity.Snapshot
import MeridianMcp.WorkspaceIntegrity.Capture
import MeridianMcp.WorkspaceIntegrity.Checkpoint
import MeridianMcp.WorkspaceIntegrity.Listed
import MeridianMcp.WorkspaceIntegrity.Sources
import MeridianMcp.WorkspaceIntegrity.Sensitivity
import MeridianMcp.BuildProvenance.Launch
import MeridianMcp.BuildProvenance.Verdict
import MeridianMcp.BuildProvenance.Attempts
import MeridianMcp.BuildProvenance.Soundness
import MeridianMcp.RuntimeIntegrity.Recovery
import MeridianMcp.RuntimeIntegrity.CrashRecovery
import MeridianMcp.RuntimeIntegrity.Session
import MeridianMcp.RuntimeIntegrity.Capacity
import MeridianMcp.RuntimeIntegrity.Recording
import MeridianMcp.RuntimeIntegrity.Soundness
import MeridianMcp.RuntimeIntegrity.Deletions
import MeridianMcp.RuntimeIntegrity.Ownership
import MeridianMcp.RuntimeIntegrity.Liveness
import MeridianMcp.RuntimeIntegrity.Handover
import MeridianMcp.RuntimeIntegrity.Immutability
import MeridianMcp.Dmi.Cache
import MeridianMcp.Dmi.Retention
import MeridianMcp.Dmi.Discipline
import MeridianMcp.Fallible
import MeridianMcp.Numbering
import MeridianMcp.PrefixCode
import MeridianMcp.Dmi.Frames
import MeridianMcp.Dmi.Compare
import MeridianMcp.Dmi.Recolouring
import MeridianMcp.Dmi.Geometry
import MeridianMcp.Dmi.Duplicates
import MeridianMcp.Dmi.DuplicateScan
import MeridianMcp.Language.Lineage
import MeridianMcp.Language.ObjectTree
import MeridianMcp.Language.ProcResolver
import MeridianMcp.Language.Resolution
import MeridianMcp.Language.LanguageIndex
import MeridianMcp.Language.Inheritance
import MeridianMcp.Language.Implementations
import MeridianMcp.Language.ProcAt
import MeridianMcp.References.Walker
import MeridianMcp.References.Identifiers
import MeridianMcp.References.Scoping
import MeridianMcp.References.Writes
import MeridianMcp.References.Assignments
import MeridianMcp.Search.TopK
import MeridianMcp.Search.Index
import MeridianMcp.Search.Search
import MeridianMcp.Search.Limit
import MeridianMcp.Search.Postings
import MeridianMcp.Search.Bm25
import MeridianMcp.Search.Matches
import MeridianMcp.Search.Candidates
import MeridianMcp.Search.Documents
import MeridianMcp.Search.Canonical
import MeridianMcp.Search.Completeness
import MeridianMcp.Search.ProcDocuments
import MeridianMcp.Evidence.Redacts
import MeridianMcp.Evidence.RedactedOnce
import MeridianMcp.Evidence.RedactionLoop
import MeridianMcp.Evidence.HyphenatedNames
import MeridianMcp.Evidence.Reader
import MeridianMcp.Evidence.Noninterference
import MeridianMcp.Evidence.Artifacts
import MeridianMcp.Evidence.Timeline
import MeridianMcp.Evidence.Assignment
import MeridianMcp.Evidence.Comparison
import MeridianMcp.Evidence.Series
import MeridianMcp.Evidence.Integrity
import MeridianMcp.Evidence.SeriesKeys
import MeridianMcp.Evidence.Clash
import MeridianMcp.Source.IndexedSource
import MeridianMcp.Source.CommentScan
import MeridianMcp.Source.Excerpt
import MeridianMcp.TracyTrace.Frames
import MeridianMcp.TracyTrace.ZoneComparison
import MeridianMcp.Debugger.Breakpoints
import MeridianMcp.Debugger.Connection
import MeridianMcp.Debugger.EventLog
import MeridianMcp.Debugger.Delivery
import MeridianMcp.Analysis.Admission
import MeridianMcp.Analysis.Orderly
import MeridianMcp.Analysis.Publication
import MeridianMcp.Analysis.Generations
import MeridianMcp.Analysis.Fingerprint
import MeridianMcp.Analysis.Reuse
import MeridianMcp.Tracy.Capture
import MeridianMcp.Tracy.Slot
import MeridianMcp.Tracy.Ledger
import MeridianMcp.Tracy.Collector
import MeridianMcp.Tracy.AtRest
import MeridianMcp.Tracy.Stopping
import MeridianMcp.Tracy.Transport
import MeridianMcp.Tracy.Registry
import MeridianMcp.Tracy.Protocol
import MeridianMcp.Utf8
import MeridianMcp.ByteOffsets
import MeridianMcp.PrettyJson
import MeridianMcp.TracyExperiment.Workload
import MeridianMcp.TracyExperiment.Binding
import MeridianMcp.Delimited
import MeridianMcp.Tracy.BoundedLine
import MeridianMcp.Tracy.ResponseLines
import MeridianMcp.Suffixes
import MeridianMcp.RuntimeOutput.Retention
import MeridianMcp.RuntimeOutput.Order
import MeridianMcp.LossyUtf8
import MeridianMcp.RuntimeOutput.Capture
import MeridianMcp.Evidence.Accounting
import MeridianMcp.DisjointSets
import MeridianMcp.Dmi.Components
import MeridianMcp.Dmi.Transforms
import MeridianMcp.Dmi.GroupAction
import MeridianMcp.Dmi.Palette
import MeridianMcp.Dmi.CropSymmetry
import MeridianMcp.Dmi.Symmetry
import MeridianMcp.Machine
import MeridianMcp.DmiDecode.Metadata
import MeridianMcp.DmiDecode.FrameAccess
import MeridianMcp.DmiDecode.Inflated
import MeridianMcp.DmiDecode.Chunks
import MeridianMcp.DmiDecode.Walks
import MeridianMcp.DmiDecode.Stream
import MeridianMcp.Worklist
import MeridianMcp.BuildProvenance.Preparation
import MeridianMcp.DmiDecode.Preflight
import MeridianMcp.DmiDecode.Demands
import MeridianMcp.DmiDecode.Limits
import MeridianMcp.DmiDecode.Reload
import MeridianMcp.DmiDecode.Recorded
import MeridianMcp.DmiDecode.AssetScan
import MeridianMcp.BuildProvenance.SourceLines
import MeridianMcp.BuildProvenance.Closure
import MeridianMcp.AtomicOutput.Fresh
import MeridianMcp.TracyArtifact.Promotion
import MeridianMcp.Containment.Policy
import MeridianMcp.Containment.Entries
import MeridianMcp.Containment.Contained
import MeridianMcp.PrettyJson.Legible
import MeridianMcp.AtomicOutput.Written
import MeridianMcp.WorkspaceIntegrity.Journal
import MeridianMcp.WorkspaceIntegrity.ErrorAtomicity
import MeridianMcp.Paging
import MeridianMcp.Tools.Diagnostics
import MeridianMcp.Tools.ListTypes
import MeridianMcp.HelperManifest.Manifest
import MeridianMcp.HelperManifest.Admission
import MeridianMcp.Windows
import MeridianMcp.ByteWords
import MeridianMcp.Semantic.Chunks
import MeridianMcp.Source.StandardLines
import MeridianMcp.Process.Contained
import MeridianMcp.Interpolation
import MeridianMcp.Evidence.Percentiles
import MeridianMcp.TracyTrace.Clock
import MeridianMcp.WorkspaceIntegrity.Digest
import MeridianMcp.TracyConfiguration.Inspect
import MeridianMcp.TracyConfiguration.Digest
import MeridianMcp.Dmm.Reports
import MeridianMcp.Dmm.RoundTrip
import MeridianMcp.Process.RuntimeOwner
import MeridianMcp.Process.NetworkAudit
import MeridianMcp.Containment.Arguments
import MeridianMcp.Tracy.Exchange
