import ReuleauxCoder.Library.Check
import ReuleauxCoder.Library.Text
import ReuleauxCoder.Library.Json
import ReuleauxCoder.Library.JsonText
import ReuleauxCoder.Library.Transition
import ReuleauxCoder.History.Ledger
import ReuleauxCoder.History.Durability
import ReuleauxCoder.Control.Goal
import ReuleauxCoder.Control.GoalRestore
import ReuleauxCoder.Control.Plan
import ReuleauxCoder.Control.PlanRecovery
import ReuleauxCoder.Context.ProviderMessage
import ReuleauxCoder.Persistence.Validation
import ReuleauxCoder.Persistence.ControlPlane
import ReuleauxCoder.Agent.Steering
import ReuleauxCoder.Agent.Settlement
import ReuleauxCoder.Agent.Generations
import ReuleauxCoder.Agent.Restarts
import ReuleauxCoder.Library.JsonRoundTrip
import ReuleauxCoder.Context.Canonical
import ReuleauxCoder.Context.Replay
import ReuleauxCoder.Library.Adjacency
import ReuleauxCoder.Library.AdjacencyLaws
import ReuleauxCoder.Context.ToolHistory
import ReuleauxCoder.Context.ToolAdjacency
import ReuleauxCoder.Approval.Policy
import ReuleauxCoder.Approval.SessionGrants
import ReuleauxCoder.Approval.Cancellation
import ReuleauxCoder.Library.Grouping
import ReuleauxCoder.Output.Journal
import ReuleauxCoder.Output.Recovery
import ReuleauxCoder.Output.Transcripts
import ReuleauxCoder.Output.Interruption
import ReuleauxCoder.Library.Listing
import ReuleauxCoder.Persistence.Inventory
import ReuleauxCoder.Persistence.InventoryFreshness
import ReuleauxCoder.Library.Bookkeeping
import ReuleauxCoder.Process.Manager
import ReuleauxCoder.Process.Lifecycle
import ReuleauxCoder.Process.Effects
import ReuleauxCoder.Process.Sessions
import ReuleauxCoder.Library.Converting
import ReuleauxCoder.Tools.Failures
import ReuleauxCoder.Tools.Outcome
import ReuleauxCoder.Rpc.Message
import ReuleauxCoder.Rpc.Peer
import ReuleauxCoder.Rpc.Requests
import ReuleauxCoder.Rpc.Replies
import ReuleauxCoder.Workspace.Patch
import ReuleauxCoder.Workspace.ApplyPatch
import ReuleauxCoder.Workspace.PatchRaces
import ReuleauxCoder.History.Index
import ReuleauxCoder.History.Indexed
import ReuleauxCoder.History.Tables
import ReuleauxCoder.History.TableReading
import ReuleauxCoder.History.LoadedEvents
import ReuleauxCoder.Library.Pieces
import ReuleauxCoder.History.Pages
import ReuleauxCoder.History.PagedReading
import ReuleauxCoder.History.Paging
import ReuleauxCoder.History.Lossless
import ReuleauxCoder.History.Loading
import ReuleauxCoder.History.ReadersAgree
import ReuleauxCoder.Remote.Interactions
import ReuleauxCoder.Remote.Settlements
import ReuleauxCoder.Rpc.Codec
import ReuleauxCoder.Rpc.CodecRoundTrip
import ReuleauxCoder.Workspace.TextPage
import ReuleauxCoder.Workspace.TextPageAgreement
import ReuleauxCoder.Peer.Manager
import ReuleauxCoder.Peer.ManagerInvariant
import ReuleauxCoder.Peer.Starts
import ReuleauxCoder.Remote.ProcessPort
import ReuleauxCoder.Remote.StartedOnce
import ReuleauxCoder.Library.FileSystem
import ReuleauxCoder.Library.FileChanges
import ReuleauxCoder.Workspace.Execute
import ReuleauxCoder.Workspace.Writing
import ReuleauxCoder.Workspace.Reading
import ReuleauxCoder.Workspace.Confined
import ReuleauxCoder.Remote.Relay
import ReuleauxCoder.Remote.Leases
import ReuleauxCoder.Runtime.Commands
import ReuleauxCoder.Runtime.Server
import ReuleauxCoder.Runtime.Workers
import ReuleauxCoder.Runtime.Truthful
import ReuleauxCoder.Runtime.Submissions
import ReuleauxCoder.Runtime.Admissions
import ReuleauxCoder.Runtime.AdmittedOnce
import ReuleauxCoder.Library.Weighted
import ReuleauxCoder.Process.TextBuffer
import ReuleauxCoder.Process.CursorReads
import ReuleauxCoder.Library.Replacing
import ReuleauxCoder.Process.Redaction
import ReuleauxCoder.Context.Rounds
import ReuleauxCoder.Context.Compaction
import ReuleauxCoder.Context.SummarizedTail
import ReuleauxCoder.Context.AtomicCompaction
import ReuleauxCoder.Context.Provenance
import ReuleauxCoder.Context.ProvenanceSync
import ReuleauxCoder.Context.ProvenanceAlignment
import ReuleauxCoder.Context.ProvenanceOrigins
import ReuleauxCoder.Persistence.SnapshotWriter
import ReuleauxCoder.Library.Lines
import ReuleauxCoder.Workspace.PageLines
import ReuleauxCoder.Context.CollapseProgress
import ReuleauxCoder.Context.Snipping
import ReuleauxCoder.Library.Gaps
import ReuleauxCoder.Workspace.PortableGlob
import ReuleauxCoder.Workspace.GlobScan
import ReuleauxCoder.Workspace.GlobPruning
import ReuleauxCoder.Library.Endings
import ReuleauxCoder.Workspace.PatchLines
import ReuleauxCoder.Library.Occurrences
import ReuleauxCoder.History.Search
import ReuleauxCoder.History.SearchTables
import ReuleauxCoder.History.SearchRun
import ReuleauxCoder.Library.Utf8
import ReuleauxCoder.Workspace.TextSearch
import ReuleauxCoder.Workspace.TextSearchExact
import ReuleauxCoder.Library.Boundaries
import ReuleauxCoder.Library.LineRanges
import ReuleauxCoder.Tools.Retention
import ReuleauxCoder.Tools.LineScan
import ReuleauxCoder.Tools.Excerpt
import ReuleauxCoder.Tools.RetainedLines
import ReuleauxCoder.Tools.Truncation
import ReuleauxCoder.Tools.TruncationAccepted
import ReuleauxCoder.Library.Runes
import ReuleauxCoder.Peer.OutputBuffer
import ReuleauxCoder.Peer.OutputPolls
import ReuleauxCoder.Library.Failing
import ReuleauxCoder.Rpc.Refusals
import ReuleauxCoder.Library.LastMatch
import ReuleauxCoder.Providers.Content
import ReuleauxCoder.Providers.Responses
import ReuleauxCoder.Providers.CacheBreakpoint
import ReuleauxCoder.Library.Exchanges
import ReuleauxCoder.Providers.History
import ReuleauxCoder.Providers.ResponsesHistory
import ReuleauxCoder.Providers.Anthropic
import ReuleauxCoder.Providers.AnthropicHistory
import ReuleauxCoder.Providers.AnthropicTurns
import ReuleauxCoder.Providers.Chat
import ReuleauxCoder.Providers.ChatHistory
import ReuleauxCoder.Providers.ConversionKept
import ReuleauxCoder.History.SequenceReuse
import ReuleauxCoder.Persistence.RestoreIssues
import ReuleauxCoder.Persistence.RestoreIssueTotals
import ReuleauxCoder.Library.Base32
import ReuleauxCoder.Persistence.SessionPaths
import ReuleauxCoder.Persistence.RecentConversation
import ReuleauxCoder.Persistence.RecentPreviews
import ReuleauxCoder.Library.SmallestKeys
import ReuleauxCoder.Tools.FailureSummary
import ReuleauxCoder.Tools.RuntimeIssues
import ReuleauxCoder.Tools.RuntimeIssuesConserved
import ReuleauxCoder.Persistence.SnapshotRequests
import ReuleauxCoder.Library.Retained
import ReuleauxCoder.Library.RuneText
import ReuleauxCoder.Presentation.EventStreams
import ReuleauxCoder.Presentation.Renderers
import ReuleauxCoder.Remote.ProcessRun
