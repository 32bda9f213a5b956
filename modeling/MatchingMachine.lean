import MatchingMachine.Lib.OrderedMap
import MatchingMachine.Lib.Interaction
import MatchingMachine.Lib.TextStream
import MatchingMachine.Lib.MidRank
import MatchingMachine.Model.Order
import MatchingMachine.Model.PriceLevel
import MatchingMachine.Model.TradeRingBuffer
import MatchingMachine.Model.OrderBook
import MatchingMachine.Model.Session
import MatchingMachine.Model.Serving
import MatchingMachine.Model.OrderBookV1
import MatchingMachine.Model.SpscRingBuffer
import MatchingMachine.Model.MemoryPool
import MatchingMachine.Model.FeedSimulator
import MatchingMachine.Model.Pipeline
import MatchingMachine.Model.MatchingEngine
import MatchingMachine.Priority.PriorityBook
import MatchingMachine.Priority.Sweep
import MatchingMachine.Priority.Requests
import MatchingMachine.Priority.Trades
import MatchingMachine.Priority.Accounts
import MatchingMachine.Priority.Ledger
import MatchingMachine.Priority.Blind
import MatchingMachine.Refinement.Represents
import MatchingMachine.Refinement.Matching
import MatchingMachine.Refinement.MatchStep
import MatchingMachine.Refinement.Noalloc
import MatchingMachine.Refinement.Queues
import MatchingMachine.Refinement.Calls
import MatchingMachine.Refinement.Confined
import MatchingMachine.Refinement.Lockstep
import MatchingMachine.Refinement.Reachable
import MatchingMachine.Refinement.Serve
import MatchingMachine.Refinement.Runs
import MatchingMachine.Reference.ReferenceBook
import MatchingMachine.Reference.Agreement
import MatchingMachine.Reference.OriginalBook
import MatchingMachine.Feed.LoadCsv
import MatchingMachine.Runs.Cancels
import MatchingMachine.Runs.DeadPrefix
import MatchingMachine.Runs.PoolRuns
import MatchingMachine.Runs.Symbols
import MatchingMachine.Runs.TradeBuffer
import MatchingMachine.Runs.Ownership
import MatchingMachine.Runs.Paths
import MatchingMachine.Runs.Accounting
import MatchingMachine.Concurrency.SpscFifo
import MatchingMachine.Pipeline.Stream
import MatchingMachine.Pipeline.Invariant
import MatchingMachine.Pipeline.ProducerSteps
import MatchingMachine.Pipeline.ConsumerSteps
import MatchingMachine.Pipeline.Runs
import MatchingMachine.Pipeline.Outcome
import MatchingMachine.Pipeline.Progress
import MatchingMachine.Pipeline.Independence
import MatchingMachine.Model.BenchReport
import MatchingMachine.Reports.Ranks
import MatchingMachine.Reports.Tiers
import MatchingMachine.Model.BenchRecord
import MatchingMachine.Recording.Intervals
import MatchingMachine.Model.DiagnoseReport
import MatchingMachine.Reports.Completeness
import MatchingMachine.Model.BenchEnv
import MatchingMachine.Settings.SavedState
import MatchingMachine.Model.LatencyReports
import MatchingMachine.Recording.ReportText
import MatchingMachine.Recording.LatencyRoundTrip
import MatchingMachine.Model.MutexMatchingEngine
import MatchingMachine.Baseline.Invariant
import MatchingMachine.Baseline.ThreadSteps
import MatchingMachine.Baseline.StarterSteps
import MatchingMachine.Baseline.Wakeups
import MatchingMachine.Lib.Raising
import MatchingMachine.Model.Recorder
import MatchingMachine.Model.BenchStudy
import MatchingMachine.Recording.Affinity
import MatchingMachine.Recording.LeavingMode
import MatchingMachine.Model.DiagnosticStudy
import MatchingMachine.Lib.Traces
import MatchingMachine.Recording.Undoing
import MatchingMachine.Lib.Fairness
import MatchingMachine.Pipeline.Work
import MatchingMachine.Pipeline.Liveness
import MatchingMachine.Baseline.Serial
import MatchingMachine.Baseline.Consistency
import MatchingMachine.Baseline.Termination
import MatchingMachine.Model.RingPipeline
import MatchingMachine.Concurrency.RingCalls
import MatchingMachine.Pipeline.Delays
import MatchingMachine.Pipeline.Rings
import MatchingMachine.Pipeline.RingRuns
import MatchingMachine.Lib.Scripts
import MatchingMachine.Model.MeasurementMode
import MatchingMachine.Settings.Restoring
import MatchingMachine.Lib.Binary64
