import Winsmux.Input.OperatorSubmit
import Winsmux.KeyedFold
import Winsmux.GitGraph.LaneSpans
import Winsmux.GitGraph.Lanes
import Winsmux.Format.Glob
import Winsmux.Config.LoadingEnds
import Winsmux.Config.Loading
import Winsmux.Layout.FocusChoice
import Winsmux.Layout.Neighbors
import Winsmux.Command.SendKeysLine
import Winsmux.Command.SendKeysWritten
import Winsmux.Command.SendKeys
import Winsmux.Config.Conditionals
import Winsmux.Config.Content
import Winsmux.Command.CommandLine
import Winsmux.CharText
import Winsmux.RemoteHelper.Protocol
import Winsmux.RemoteHelper.Codec
import Winsmux.RemoteHelper.Broker
import Winsmux.RemoteHelper.BrokerLease
import Winsmux.RemoteHelper.BrokerReach
import Winsmux.RemoteHelper.BrokerSession
import Winsmux.Log
import Winsmux.RemoteHelper.BrokerStream
import Winsmux.RemoteHelper.BrokerExit
import Winsmux.RemoteHelper.BrokerLimit
import Winsmux.RemoteHelper.Admission
import Winsmux.RemoteHelper.AdmissionSafety
import Winsmux.HashChain
import Winsmux.JsonMap
import Winsmux.Ledger.EventContract
import Winsmux.Ledger.Evidence
import Winsmux.Ledger.EvidenceAppend
import Winsmux.Ledger.EvidenceTamper
import Winsmux.Ledger.Runs
import Winsmux.Ledger.Explain
import Winsmux.Ledger.ExplainAgree
import Winsmux.Ledger.Approval
import Winsmux.Ledger.Release
import Winsmux.Layout.Node
import Winsmux.Layout.Geometry
import Winsmux.Layout.LayoutString
import Winsmux.Layout.Server
import Winsmux.Layout.Command
import Winsmux.Layout.Effect
import Winsmux.Layout.Focus
import Winsmux.Layout.Panes
import Winsmux.Layout.Transfer
import Winsmux.Layout.Conservation
import Winsmux.Layout.ActivePath
import Winsmux.Layout.SizesRun
import Winsmux.Session.Files
import Winsmux.Session.Names
import Winsmux.Session.ClientAccounts
import Winsmux.Control.Filter
import Winsmux.Control.FilterFaithful
import Winsmux.Control.Output
import Winsmux.Control.OutputFaithful
import Winsmux.HostProfile.KnownHosts
import Winsmux.HostProfile.Trust
import Winsmux.HostProfile.TrustKept
import Winsmux.Layout.WindowCommand
import Winsmux.Positions
import Winsmux.Layout.WindowIds
import Winsmux.Layout.WindowAccount
import Winsmux.Layout.WindowReferences
import Winsmux.Session.Cleanup
import Winsmux.Session.CleanupSafe
import Winsmux.Session.CleanupDone
import Winsmux.Ledger.EventTime
import Winsmux.Ledger.EventTimeInbox
import Winsmux.Ledger.EventTimeOrder
import Winsmux.Layout.Tiling
import Winsmux.Layout.Cells
import Winsmux.Layout.LayoutPrint
import Winsmux.Layout.LayoutRestore
import Winsmux.Layout.Prune
import Winsmux.Layout.TakeOut
import Winsmux.Layout.SplitRefused
import Winsmux.Layout.ShareMoves
import Winsmux.Format.Syntax
import Winsmux.Format.Variables
import Winsmux.Layout.Reap
import Winsmux.MonadRelation
import Winsmux.Format.Expand
import Winsmux.Format.Pieces
import Winsmux.Format.Arguments
import Winsmux.Format.Readings
import Winsmux.Format.Sound
import Winsmux.Format.Total
import Winsmux.Format.Returns
import Winsmux.Format.Compose
import Winsmux.CrashTriple
import Winsmux.Migrate.WorkspaceMigrate
import Winsmux.Migrate.Reversible
import Winsmux.Ledger.PublicRefs
import Winsmux.Input.BracketedPaste
import Winsmux.Input.Sequences
import Winsmux.Input.Decoding
import Winsmux.RemoteHelper.Relay
import Winsmux.CopyMode.Search
import Winsmux.RemoteHelper.RelayStream
import Winsmux.CopyMode.SearchColumns
import Winsmux.ContextPack.PublicPath
import Winsmux.Shrink
import Winsmux.JsonAscii
import Winsmux.ContextPack.ContextPack
import Winsmux.ContextPack.Valid
import Winsmux.ContextPack.Budget
import Winsmux.Layout.FocusBack
import Winsmux.TopologicalOrder
import Winsmux.Workflow.Workflow
import Winsmux.Workflow.WorkflowOrder
import Winsmux.Workflow.WorkflowSpec
import Winsmux.Follower
import Winsmux.Ledger.CondensedEvents
import Winsmux.Ledger.EventFollow
import Winsmux.TeamProfile.Resolve
import Winsmux.TeamProfile.ResolveSpec
import Winsmux.TeamProfile.Overrides
