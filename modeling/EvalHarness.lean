import EvalHarness.Lib.Runs
import EvalHarness.Lib.Table
import EvalHarness.Lib.Locks
import EvalHarness.Lib.Sql
import EvalHarness.Lib.Parts
import EvalHarness.Lib.PyStr
import EvalHarness.Lib.PyFloat
import EvalHarness.Lib.PyJson
import EvalHarness.Lib.PyJsonText
import EvalHarness.Lib.PyAccess
import EvalHarness.Lib.PyDict
import EvalHarness.Schema
import EvalHarness.Pricing
import EvalHarness.Worker
import EvalHarness.Api
import EvalHarness.System
import EvalHarness.Transitions
import EvalHarness.WellFormed
import EvalHarness.Winner
import EvalHarness.Refusals
import EvalHarness.Ledger
import EvalHarness.Once
import EvalHarness.Progress
import EvalHarness.Recovery
import EvalHarness.Spend
import EvalHarness.Cancel
import EvalHarness.Statements
import EvalHarness.Held
import EvalHarness.Replay
import EvalHarness.Completion
import EvalHarness.Confluence
import EvalHarness.Lifecycle
import EvalHarness.Redelivery
import EvalHarness.Terminal
import EvalHarness.Broker
import EvalHarness.Scores
import EvalHarness.Review
import EvalHarness.Grading
import EvalHarness.Grades
import EvalHarness.Ungraded
import EvalHarness.Coherence
import EvalHarness.Leaderboard
import EvalHarness.Views
import EvalHarness.Columns
import EvalHarness.Isolation
import EvalHarness.Auth
import EvalHarness.Routing
import EvalHarness.Extract
import EvalHarness.Judge
import EvalHarness.Authority
import EvalHarness.Retry
import EvalHarness.Transient
import EvalHarness.Providers
import EvalHarness.Lib.Tx
import EvalHarness.AllOrNothing
import EvalHarness.Lib.PyDecimal
import EvalHarness.Costs
import EvalHarness.Lib.Words
import EvalHarness.ExactMatch
import EvalHarness.FanOut
import EvalHarness.Ranges
import EvalHarness.Report
import EvalHarness.Growth
import EvalHarness.Lib.Slots
import EvalHarness.Attempts
import EvalHarness.Service
import EvalHarness.Gate
import EvalHarness.Access
import EvalHarness.Lib.PyJsonTrip
import EvalHarness.Artifacts
import EvalHarness.Queue
import EvalHarness.Fake
