import GlideMq.Machine.Runs
import GlideMq.Redis.SortedSet
import GlideMq.Redis.Stream
import GlideMq.Lua.Number
import GlideMq.Model.State
import GlideMq.Model.Commands
import GlideMq.Model.Ordering
import GlideMq.Model.Group
import GlideMq.Model.Parents
import GlideMq.Model.Settle
import GlideMq.Model.Claim
import GlideMq.Model.Chain
import GlideMq.Model.Add
import GlideMq.Model.Promote
import GlideMq.Model.Stalled
import GlideMq.Model.Admin
import GlideMq.Model.Calls
import GlideMq.Model.Producer
import GlideMq.Model.Budget
import GlideMq.Proofs.Frame
import GlideMq.Proofs.ParentFrame
import GlideMq.Proofs.Core
import GlideMq.Proofs.GroupSteps
import GlideMq.Proofs.ClaimSteps
import GlideMq.Proofs.ChainSteps
import GlideMq.Proofs.Life
import GlideMq.Proofs.Steps
import GlideMq.Proofs.AdminRuns
import GlideMq.Proofs.ManageRuns
import GlideMq.Proofs.DrainRuns
import GlideMq.Proofs.ChainVars
import GlideMq.Proofs.ChainAgrees
import GlideMq.Proofs.ChainRefines
import GlideMq.Proofs.ParentRelease
import GlideMq.Proofs.ParentCalls
import GlideMq.Proofs.JobIds
import GlideMq.Proofs.FreshIds
import GlideMq.Proofs.FlowAtomic
import GlideMq.Proofs.DedupRejects
import GlideMq.Proofs.PromoteRuns
import GlideMq.Proofs.DedupUnique
import GlideMq.Proofs.DueTimes
import GlideMq.Proofs.PriorityList
import GlideMq.Proofs.ChainPops
import GlideMq.Proofs.PriorityOrder
import GlideMq.Proofs.BudgetFlag
import GlideMq.Proofs.EnqueuePaths
import GlideMq.Proofs.FlowOrder
import GlideMq.Proofs.TokenBound
import GlideMq.Proofs.WindowBound
import GlideMq.Proofs.GroupPause
import GlideMq.Proofs.RefillLaw
import GlideMq.Proofs.NextDue
import GlideMq.Proofs.Rescheduling
import GlideMq.Machine.Grid
import GlideMq.Model.Schedulers
import GlideMq.Proofs.Intervals
import GlideMq.Model.SchedulerSteps
import GlideMq.Proofs.SchedulerUpserts
import GlideMq.Proofs.SchedulerFires
import GlideMq.Lua.Text
import GlideMq.Lua.Json
import GlideMq.Model.Codecs
import GlideMq.Proofs.Members
import GlideMq.Machine.Calendar
import GlideMq.Model.CronPattern
import GlideMq.Model.CronSearch
import GlideMq.Proofs.CronDays
import GlideMq.Proofs.CronGrammar
import GlideMq.Proofs.CronParser
import GlideMq.Proofs.CronWords
import GlideMq.Proofs.CronLanguage
import GlideMq.Proofs.CronWalk
import GlideMq.Proofs.CronUtc
import GlideMq.Proofs.CronZones
import GlideMq.Proofs.CronInstants
import GlideMq.Machine.Clocks
import GlideMq.Machine.Frontier
import GlideMq.Model.DoneFields
import GlideMq.Proofs.DoneFrontier
import GlideMq.Machine.Acyclic
import GlideMq.Model.Dag
import GlideMq.Proofs.DagCycles
import GlideMq.Proofs.DagOrder
import GlideMq.Machine.Selection
import GlideMq.Model.TestAdd
import GlideMq.Model.TestQueue
import GlideMq.Proofs.Dispatch
import GlideMq.Proofs.TestDedup
import GlideMq.Proofs.UsageSums
import GlideMq.Json.Syntax
import GlideMq.Json.Parser
import GlideMq.Model.TopLevelNumber
import GlideMq.Proofs.TopLevelNumber
import GlideMq.Json.Writer
import GlideMq.Model.ReplyText
import GlideMq.Proofs.ReplyText
import GlideMq.Json.Stringify
import GlideMq.Lua.Double
import GlideMq.Lua.NumberText
import GlideMq.Machine.Lookup
import GlideMq.Model.EntryText
import GlideMq.Model.UsageReport
import GlideMq.Proofs.EntryText
import GlideMq.Model.SandboxPool
import GlideMq.Proofs.SandboxProgress
import GlideMq.Proofs.DistinctSeqs
import GlideMq.Model.Worker
import GlideMq.Model.WorkerLoop
import GlideMq.Proofs.WorkerSlots
import GlideMq.Proofs.WorkerClaims
import GlideMq.Proofs.WorkerPolls
import GlideMq.Proofs.WorkerRuns
import GlideMq.Proofs.WorkerControl
import GlideMq.Proofs.WorkerStops
import GlideMq.Proofs.HandedOut
import GlideMq.Model.Lock
import GlideMq.Proofs.LockLeases
import GlideMq.Model.RateLimit
import GlideMq.Proofs.RateWindows
import GlideMq.Model.Broadcast
import GlideMq.Proofs.BroadcastTrims
import GlideMq.Proofs.GoneMessages
import GlideMq.Model.Subject
import GlideMq.Proofs.SubjectFilters
