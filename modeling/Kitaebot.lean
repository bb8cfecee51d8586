import Kitaebot.Core.Run
import Kitaebot.Core.Tasks
import Kitaebot.Core.Json
import Kitaebot.Tools.Direnv
import Kitaebot.Tools.DirenvWaiters
import Kitaebot.Tools.Mcp
import Kitaebot.Tools.McpStream
import Kitaebot.Lcm.Pinning
import Kitaebot.Lcm.Coverage
import Kitaebot.Lcm.Dag
import Kitaebot.Lcm.Pairing
import Kitaebot.Lcm.Repair
import Kitaebot.Core.FileTree
import Kitaebot.Tools.Path
import Kitaebot.Core.Regex
import Kitaebot.Safety
import Kitaebot.Tools.Git
import Kitaebot.Time
import Kitaebot.Core.Text
import Kitaebot.Channel.Trust
import Kitaebot.Channel.Forge
import Kitaebot.Channel.Prs
import Kitaebot.Channel.PrPosts
import Kitaebot.Channel.PrTicks
import Kitaebot.Channel.PrPolling
import Kitaebot.Channel.PrRepeats
import Kitaebot.Channel.Untrusted
import Kitaebot.Channel.LinearUntrusted
import Kitaebot.Channel.PrRecovery
import Kitaebot.Core.Shell
import Kitaebot.Tools.DenyRules
import Kitaebot.Tools.Exec
import Kitaebot.Tools.Segments
import Kitaebot.Tools.CommandDeny
import Kitaebot.Tools.InertSearch
import Kitaebot.Lcm.Externalize
import Kitaebot.Lcm.FileReferences
import Kitaebot.Core.Traversal
import Kitaebot.Lcm.Recall
import Kitaebot.Tools.WarmFlights
import Kitaebot.Agent.Usage
import Kitaebot.Agent.Strikes
import Kitaebot.Core.Effect
import Kitaebot.Agent.TurnLoop
import Kitaebot.Agent.Deeds
import Kitaebot.Agent.Billing
import Kitaebot.Agent.Halting
import Kitaebot.Agent.TurnRounds
import Kitaebot.Agent.TurnBounds
import Kitaebot.Context.Names
import Kitaebot.Core.SortedMap
import Kitaebot.Context.FlatSession
import Kitaebot.Context.FlatListing
import Kitaebot.Lcm.CondensedLoop
import Kitaebot.Lcm.Escalation
import Kitaebot.Lcm.CompactionTokens
import Kitaebot.Core.ByteText
import Kitaebot.Tools.FileEdit
import Kitaebot.Tools.FileEditWindow
import Kitaebot.Tools.FileEditSafety
import Kitaebot.Clients.GithubGate
import Kitaebot.Duty.Journal
import Kitaebot.Duty.SelfAnalysis
import Kitaebot.Duty.NotifyDelta
import Kitaebot.Duty.Scheduler
import Kitaebot.Duty.CursorText
import Kitaebot.Duty.Positions
import Kitaebot.Duty.Cursors
import Kitaebot.Core.Commands
import Kitaebot.Tools.GitCli
import Kitaebot.Tools.Fixup
import Kitaebot.Tools.FixupRestore
import Kitaebot.Tools.Refs
import Kitaebot.Tools.Checkout
import Kitaebot.Channel.ExecutionCheckout
import Kitaebot.Tools.Worktree
import Kitaebot.Channel.Leftovers
import Kitaebot.Core.Replay
import Kitaebot.Tools.RebaseProvenance
import Kitaebot.Lcm.Riding
import Kitaebot.Lcm.ExpansionCap
import Kitaebot.Lcm.Transcript
import Kitaebot.Lcm.RepositorySessions
import Kitaebot.Channel.IssueDiscussions
import Kitaebot.Core.Correlation
import Kitaebot.Context.Stats
import Kitaebot.Context.Attribution
import Kitaebot.Context.FailureKinds
import Kitaebot.Core.RecentTable
import Kitaebot.Tools.EditHistory
import Kitaebot.Core.ShellQuoting
import Kitaebot.Tools.Separators
import Kitaebot.Agent.Actor
import Kitaebot.Agent.ExecutionRetry
import Kitaebot.Core.Calendar
import Kitaebot.Core.MachineInt
import Kitaebot.Timestamps
import Kitaebot.Duty.ScheduleText
import Kitaebot.Duty.DueTimes
import Kitaebot.Core.Watermarks
import Kitaebot.Core.RoundRobin
import Kitaebot.Lcm.Backlog
import Kitaebot.Memory.Distill
import Kitaebot.Memory.Slices
import Kitaebot.Memory.Distillation
import Kitaebot.Memory.Draining
import Kitaebot.Agent.TurnHistory
import Kitaebot.Agent.SessionHistory
import Kitaebot.Core.LineStream
import Kitaebot.Core.LossyUtf8
import Kitaebot.Errlog
import Kitaebot.Tools.FileRead
import Kitaebot.Lcm.ToolFraming
import Kitaebot.Agent.Routing
