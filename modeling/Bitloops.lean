import Bitloops.Foundation.Run
import Bitloops.Foundation.Coverage
import Bitloops.Foundation.OrderBy
import Bitloops.Foundation.LastWins
import Bitloops.Foundation.Records
import Bitloops.Foundation.SeqTable
import Bitloops.Foundation.KeyedTable
import Bitloops.Foundation.UniqueTable
import Bitloops.Foundation.UpdateFirst
import Bitloops.Foundation.JsonStrings
import Bitloops.Foundation.WriteBehind
import Bitloops.LifecycleSpool.Model
import Bitloops.LifecycleSpool.Delivery
import Bitloops.Daemon.Task
import Bitloops.Daemon.SyncMode
import Bitloops.Daemon.TaskQueue
import Bitloops.Daemon.TaskCoverage
import Bitloops.Daemon.SchedulerExclusion
import Bitloops.Daemon.SchedulerProgress
import Bitloops.ProducerSpool.Payload
import Bitloops.ProducerSpool.Queue
import Bitloops.ProducerSpool.Coalescing
import Bitloops.ProducerSpool.DerivationOrder
import Bitloops.CapabilityHost.Events
import Bitloops.CapabilityEvents.Queue
import Bitloops.CapabilityEvents.Plan
import Bitloops.CapabilityEvents.Coordinator
import Bitloops.CapabilityEvents.StoreInvariant
import Bitloops.CapabilityEvents.CursorSafety
import Bitloops.CapabilityEvents.Stranding
import Bitloops.Enrichment.MailboxItem
import Bitloops.Enrichment.MailboxBatch
import Bitloops.Enrichment.MailboxLease
import Bitloops.Enrichment.LeaseFencing
import Bitloops.Enrichment.MailboxCoverage
import Bitloops.Enrichment.CloneRebuild
import Bitloops.Sync.FileState
import Bitloops.Sync.GitOutput
import Bitloops.Sync.WorkspaceState
import Bitloops.Sync.DesiredManifest
import Bitloops.Sync.ManifestReference
import Bitloops.Sync.ThreeTrees
import Bitloops.Sync.DiffCollector
import Bitloops.Sync.Orchestrator
import Bitloops.Sync.RunInvariant
import Bitloops.Sync.Convergence
import Bitloops.Sync.DiffDelivery
import Bitloops.ContentCache.Cache
import Bitloops.ContentCache.Gc
import Bitloops.ContentCache.Extraction
import Bitloops.ContentCache.Materializer
import Bitloops.ContentCache.PathIndependence
import Bitloops.Interactions.Types
import Bitloops.Interactions.Spool
import Bitloops.Interactions.Repository
import Bitloops.Interactions.SpoolAgreement
import Bitloops.Interactions.TranscriptFragment
import Bitloops.Checkpoints.StorageConsistency
import Bitloops.PostCommit.Turns
import Bitloops.PostCommit.Derivation
import Bitloops.PostCommit.Retry
import Bitloops.ArchitectureRoles.RoleMigration
import Bitloops.ArchitectureRoles.Retryability
import Bitloops.DevqlGraphql.Completeness
import Bitloops.DevqlGraphql.Rendering
import Bitloops.CapabilityEvents.MergedDelta
import Bitloops.ContentCache.SyncWriter
import Bitloops.InitRuntime.Session
import Bitloops.InitRuntime.World
import Bitloops.InitRuntime.FollowUpCoverage
import Bitloops.InitRuntime.Progress
import Bitloops.SessionLifecycle.Phase
import Bitloops.SessionLifecycle.Host
import Bitloops.SessionLifecycle.Handlers
import Bitloops.SessionLifecycle.World
import Bitloops.SessionLifecycle.Coherence
import Bitloops.SessionLifecycle.SpoolMirror
import Bitloops.SessionLifecycle.AgentTranscripts
import Bitloops.SessionLifecycle.TurnWindows
import Bitloops.SessionLifecycle.TiledTranscript
import Bitloops.Interactions.TranscriptBytes
import Bitloops.Checkpoints.TranscriptUuid
import Bitloops.Sync.DiffCorrectness
import Bitloops.PostCommit.RemainingChanges
import Bitloops.Checkpoints.Attribution
import Bitloops.Checkpoints.AttributionBounds
import Bitloops.Foundation.Brackets
import Bitloops.LanguageAdapter.RustImports
import Bitloops.LanguageAdapter.UseTrees
import Bitloops.Foundation.Separators
import Bitloops.LanguageAdapter.LocalRefs
import Bitloops.Foundation.FirstUnique
import Bitloops.LanguageAdapter.ResolutionTests
import Bitloops.LanguageAdapter.ResolutionOrder
import Bitloops.LanguageAdapter.JavaSoundness
import Bitloops.ContentCache.KeyAssignment
import Bitloops.DevqlGraphql.Parser
import Bitloops.DevqlGraphql.Pipeline
import Bitloops.DevqlGraphql.ArgumentTexts
import Bitloops.DevqlGraphql.ParserRoundTrip
import Bitloops.Foundation.Segments
import Bitloops.Interactions.TranscriptPipeline
import Bitloops.Interactions.TurnPartition
import Bitloops.Foundation.TextLines
import Bitloops.CommitHunks.Hunks
import Bitloops.CommitHunks.Patch
import Bitloops.CommitHunks.DiffPaths
import Bitloops.CommitHunks.PatchReading
import Bitloops.CommitHunks.SectionReading
import Bitloops.Foundation.PartByPart
import Bitloops.CommitHunks.Recovery
import Bitloops.Foundation.GraphSearch
import Bitloops.CodeCity.FileGraph
import Bitloops.CodeCity.BlastRadius
import Bitloops.CodeCity.ComponentSearch
import Bitloops.CodeCity.ComponentCalls
import Bitloops.CodeCity.TopologicalSort
import Bitloops.CodeCity.Layering
import Bitloops.CodeCity.Condensation
import Bitloops.Foundation.SearchForest
import Bitloops.CodeCity.ArticulationSearch
import Bitloops.CodeCity.ArticulationCalls
import Bitloops.CodeCity.Articulation
import Bitloops.Foundation.Packing
import Bitloops.CodeCity.Layout
import Bitloops.Foundation.LocalSteps
import Bitloops.CodeCity.LayoutGroups
import Bitloops.CodeCity.LayoutZones
import Bitloops.CodeCity.LayoutFrames
import Bitloops.CodeCity.LayoutPositions
import Bitloops.CodeCity.LayoutOverlap
import Bitloops.Foundation.CommonSublists
import Bitloops.Checkpoints.LineDiff
import Bitloops.Foundation.Decimals
import Bitloops.Foundation.Gregorian
import Bitloops.Checkpoints.Timestamps
import Bitloops.Checkpoints.TimestampRoundTrip
import Bitloops.Foundation.Terminated
import Bitloops.Checkpoints.TranscriptLines
import Bitloops.Foundation.GreedyGroups
import Bitloops.Agents.Chunking
import Bitloops.Agents.GeminiTranscripts
import Bitloops.Agents.GeminiChunks
import Bitloops.Agents.TokenUsage
import Bitloops.Agents.UsagePerTurn
import Bitloops.Foundation.TableImages
import Bitloops.SessionBackends.States
import Bitloops.SessionBackends.Backends
import Bitloops.SessionBackends.BackendRuns
import Bitloops.TestHarness.LcovIngest
import Bitloops.GitStatus.Agreement
