import Gempba.Library.Machine
import Gempba.Library.Extension
import Gempba.Library.Flow
import Gempba.Library.Channel
import Gempba.Library.Diffusion
import Gempba.Library.Forest
import Gempba.Library.Incumbent
import Gempba.Library.PriorityQueue
import Gempba.Library.Workload
import Gempba.Utils.Score
import Gempba.Utils.ScoreLimits
import Gempba.Utils.ShiftLeft
import Gempba.Utils.Tree
import Gempba.Utils.TreeCalls
import Gempba.Utils.TreeForest
import Gempba.Utils.TreeMove
import Gempba.Utils.Topology
import Gempba.Schedulers.Messages
import Gempba.Schedulers.TerminationDetector
import Gempba.Schedulers.TaskNetwork
import Gempba.Schedulers.Outbox
import Gempba.Schedulers.Protocol
import Gempba.Schedulers.ProtocolInvariant
import Gempba.Schedulers.SemiCentralized
import Gempba.Schedulers.CentralizedUtils
import Gempba.Schedulers.Centralized
import Gempba.Schedulers.PriorityDispatch
import Gempba.Schedulers.Progress
import Gempba.Schedulers.Traffic
import Gempba.Schedulers.Accounting
import Gempba.Schedulers.Bookkeeping
import Gempba.Schedulers.BookkeepingInvariant
import Gempba.Schedulers.Fullness
import Gempba.Schedulers.NextProcess
import Gempba.Schedulers.Funnel
import Gempba.NodeManager
import Gempba.BestTracking
import Gempba.Schedulers.ScoreUpdates
import Gempba.Schedulers.ScoreInvariant
import Gempba.Schedulers.Outline
import Gempba.Schedulers.ScoredRun
import Gempba.Schedulers.BestSolution
import Gempba.Schedulers.ScoreDelivery
import Gempba.Schedulers.Drain
import Gempba.Schedulers.FetchSolution
import Gempba.Schedulers.ReceiveSolution
import Gempba.Schedulers.Coordinator
import Gempba.Schedulers.WorkConservation
import Gempba.Schedulers.Assignment
import Gempba.Schedulers.AssignmentInvariant
import Gempba.Schedulers.CenterMessages
import Gempba.Utils.ScoreBits
import Gempba.Schedulers.ScoreOrder
import Gempba.LoadBalancing.NodeCore
import Gempba.LoadBalancing.LazyArguments
import Gempba.LoadBalancing.CallTree
import Gempba.LoadBalancing.Balancer
import Gempba.LoadBalancing.Linking
import Gempba.LoadBalancing.QuasiHorizontal
import Gempba.LoadBalancing.Spine
import Gempba.LoadBalancing.ThreadTree
import Gempba.LoadBalancing.Ledger
import Gempba.LoadBalancing.Resolution
import Gempba.LoadBalancing.Activity
import Gempba.LoadBalancing.Submitting
import Gempba.LoadBalancing.Sending
import Gempba.LoadBalancing.Forwarding
import Gempba.LoadBalancing.Creating
import Gempba.LoadBalancing.Exploring
import Gempba.LoadBalancing.Process
import Gempba.LoadBalancing.Consistency
import Gempba.LoadBalancing.Resubmission
import Gempba.LoadBalancing.Rerooting
import Gempba.LoadBalancing.Submissions
import Gempba.LoadBalancing.NullNode
import Gempba.LoadBalancing.WorkStealing
import Gempba.LoadBalancing.Stealing
import Gempba.LoadBalancing.Sequential
import Gempba.LoadBalancing.StealingSteps
import Gempba.LoadBalancing.StolenWork
import Gempba.Telemetry.Hub
import Gempba.Telemetry.Settings
import Gempba.Telemetry.ClientOutbox
import Gempba.Telemetry.Frames
import Gempba.Library.LatchedReader
import Gempba.Telemetry.TopologyCodec
import Gempba.Library.Timeline
import Gempba.Telemetry.SchedulerClock
import Gempba.Telemetry.ClockIntegrals
import Gempba.Telemetry.Collection
import Gempba.Telemetry.HubCounters
import Gempba.Telemetry.FrameMoves
import Gempba.Telemetry.LatestFrame
import Gempba.Telemetry.Freshness
import Gempba.Library.Json
import Gempba.Library.JsonAutomaton
import Gempba.Library.Lines
import Gempba.Telemetry.JsonSerializer
import Gempba.Library.JsonWriting
import Gempba.Telemetry.ControlLine
import Gempba.Telemetry.StringField
import Gempba.Telemetry.BroadcastText
import Gempba.Telemetry.BroadcastLines
import Gempba.Telemetry.Inbox
import Gempba.Library.JsonValues
import Gempba.Library.JsonUnique
import Gempba.Telemetry.FieldReader
import Gempba.Telemetry.ControlGrammar
import Gempba.Library.SignedInt
import Gempba.Utils.ShiftLeftCells
import Gempba.Schedulers.CenterQueue
import Gempba.Library.Calls
import Gempba.Library.Paths
import Gempba.Telemetry.CgroupFile
import Gempba.Telemetry.CgroupMemory
import Gempba.Library.Collectives
import Gempba.Library.Blocks
import Gempba.Telemetry.TopologyProbe
import Gempba.Telemetry.TopologyBuilder
import Gempba.Telemetry.HostGroups
import Gempba.Telemetry.TopologyContributions
import Gempba.Telemetry.TopologyMerge
import Gempba.Telemetry.TopologyAgreement
import Gempba.Library.Completion
import Gempba.Schedulers.RemainingWork
import Gempba.Schedulers.Closing
import Gempba.Schedulers.SemiCentralizedCompletion
import Gempba.Schedulers.CentralizedCompletion
import Gempba.Telemetry.RunId
import Gempba.Telemetry.BroadcastLine
import Gempba.Library.BoundedTable
import Gempba.Telemetry.RunNotes
import Gempba.Library.SafeSteps
import Gempba.Telemetry.Server
import Gempba.Telemetry.ServerSockets
import Gempba.Library.WrittenLines
import Gempba.Telemetry.ServerDelivery
import Gempba.Telemetry.ServerCommands
import Gempba.Telemetry.ServerCadence
import Gempba.Telemetry.FinalFrames
import Gempba.Library.LentBuffers
import Gempba.Library.MemoryImage
import Gempba.Telemetry.WorkerFrameCodec
import Gempba.Telemetry.MpiTransport
import Gempba.Telemetry.TransportDelivery
import Gempba.Library.Barriers
import Gempba.Schedulers.MpiStats
import Gempba.Schedulers.SynchronizeStats
import Gempba.Library.Rows
import Gempba.Schedulers.GatheredStats
import Gempba.Schedulers.SynchronizeCompletion
import Gempba.Library.CountedReferences
import Gempba.Cabi.UserData
import Gempba.Cabi.Custody
import Gempba.Schedulers.HubRecords
import Gempba.Schedulers.FrameTotals
import Gempba.Library.LatestSlots
import Gempba.Telemetry.LocalTransport
