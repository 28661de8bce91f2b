/-
# The worker (`app/workers/execute.py`, `app/graders/pipeline.py`)

`execute_run_item` is a chain of separately committed transactions.  Section 1 has the
transactions under their source names, each a function of the database; section 2 the points
between them (`Pc`, named after the step that comes NEXT) with the local variables still alive
there; section 3 the step from one point to the next.  A step is atomic: it is one committed
transaction, one Redis write, one provider call or one publication, and everything between two
of these is local.

What the environment decides during a step is in `Choice`: what `provider.complete` does, what
the graders make of the output, and the time `func.now()` returns.

Left out: metrics, log lines, the sleep between two attempts and the provider's base URL copy.
None of them touches a row or a message.
-/
import EvalHarness.Pricing

namespace EvalHarness

/-! ## 1. The transactions -/

/-- `_mark_running`.  There is no guard on the status. -/
def markRunning (db : Db) (rid : ItemId) : Db :=
  db.updateItem rid (fun _ => true) fun row =>
    { row with status := .running, attemptCount := row.attemptCount + 1 }

/-- `_mark_failed`. -/
def markFailed (db : Db) (rid : ItemId) (error : String) : Db :=
  db.updateItem rid (fun _ => true) fun row => { row with status := .failed, error := some error }

/-- `_mark_dead_lettered`. -/
def markDeadLettered (db : Db) (rid : ItemId) (error : String) : Db :=
  db.updateItem rid (fun _ => true) fun row =>
    { row with status := .deadLettered, error := some error }

/-- `_mark_cancelled`: everything but a succeeded item. -/
def markCancelled (db : Db) (rid : ItemId) : Db :=
  db.updateItem rid (fun row => row.status != .succeeded) fun row =>
    { row with status := .failed, error := some "eval run cancelled" }

/-- The count of `_maybe_complete_run`. -/
def remaining (db : Db) (r : RunId) : Nat :=
  db.items.count fun _ row => row.evalRunId == r && row.status.isActive

/-- `exists().where(RunItem.eval_run_id == .., RunItem.status == dead_lettered)`. -/
def hasDeadLetter (db : Db) (r : RunId) : Bool :=
  db.items.count (fun _ row => row.evalRunId == r && row.status == .deadLettered) != 0

/-- The first update of `_maybe_complete_run`. -/
def failIfDeadLetter (db : Db) (r : RunId) (now : Timestamp) : Db :=
  db.updateRun r (fun run => run.status == .running && hasDeadLetter db r) fun run =>
    { run with status := .failed, completedAt := some now }

/-- The second update of `_maybe_complete_run`. -/
def completeIfRunning (db : Db) (r : RunId) (now : Timestamp) : Db :=
  db.updateRun r (fun run => run.status == .running) fun run =>
    { run with status := .completed, completedAt := some now }

/-- `_maybe_complete_run`. -/
def maybeCompleteRun (db : Db) (r : RunId) (now : Timestamp) : Db :=
  if remaining db r = 0 then completeIfRunning (failIfDeadLetter db r now) r now else db

/-- A spend limit and the way it is written. -/
structure SpendLimit where
  amount : MicroUsd
  text : String
  deriving DecidableEq, Repr

/-- The error an aborted run carries. -/
def SpendLimit.error (limit : SpendLimit) : String :=
  let spendLimit := limit.text
  s!"aborted: projected spend exceeds limit of ${spendLimit}"

/-- The filter of the first update of `_abort_over_budget`. -/
def overBudget (limit : SpendLimit) (run : EvalRun) : Bool :=
  run.status == .running && decide (limit.amount < run.totalCostUsd)

/-- `_abort_over_budget`: the new database, and whether the run was aborted. -/
def abortOverBudget (db : Db) (r : RunId) (limit : SpendLimit) (now : Timestamp) : Db × Bool :=
  if db.runsHit r (overBudget limit) = 1 then
    ((db.updateRun r (overBudget limit) fun run =>
        { run with
          status := .failed, completedAt := some now, error := some limit.error }).updateItemsOf r
      (fun row => row.status == .queued)
      fun row =>
        { row with status := .failed, error := some "aborted: eval run spend limit exceeded" },
     true)
  else (db, false)

/-! ## 2. Where an execution can stand -/

structure RetryConfig where
  maxAttempts : Nat := 5
  deriving DecidableEq, Repr

/-- What the executor is configured with, and the rows it only reads. -/
structure Config where
  retry : RetryConfig
  spendLimit : SpendLimit
  catalog : Catalog

/-- The local variables an execution keeps from its initial read. -/
structure Loaded where
  evalRunId : RunId
  task : Task
  endpoint : ModelEndpoint
  prevCost : MicroUsd
  prevTokens : Int
  deriving DecidableEq

inductive Reason
  | cancelled | runAborted | alreadySucceeded | notExecutable | nonRetryable | retriesExhausted
  | alreadyFinalized | gradingFailed
  deriving DecidableEq, Repr

/-- The `status` of the returned dictionary: an item status, or `"skipped"`. -/
inductive ReturnStatus
  | item (s : RunItemStatus)
  | skipped
  deriving DecidableEq, Repr

structure Return where
  status : ReturnStatus
  reason : Option Reason := none
  deriving DecidableEq, Repr

/-- The step an execution takes next, after its initial read. -/
inductive Pc
  /-- `_mark_cancelled`: the run was cancelled at the initial read. -/
  | skipCancelled
  /-- `_mark_failed(.., "eval run aborted")`: the run was failed at the initial read. -/
  | skipAborted
  /-- `_mark_running` of an attempt. -/
  | markRunning (attempt : Nat)
  /-- The provider call of an attempt. -/
  | complete (attempt : Nat)
  /-- `_mark_failed` after a non-retryable error. -/
  | markNonRetryable (error : String)
  | markDeadLettered (error : String)
  | publishDeadLetter
  /-- The read of the run's status after the provider call. -/
  | checkCancelled (r : CompletionResult)
  /-- `_mark_cancelled` after that read. -/
  | dropCancelled
  | writeArtifact (r : CompletionResult)
  /-- The transaction that finalises the item and rolls its cost up. -/
  | finalise (r : CompletionResult)
  /-- `_abort_over_budget`. -/
  | abortCheck (r : CompletionResult)
  /-- `grade_run_item`: the read of the existing grades. -/
  | gradeRead (r : CompletionResult)
  /-- `grade_run_item`: the graders, provider calls of the judge included. -/
  | judge (r : CompletionResult)
  /-- `grade_run_item`: is there a review item already? -/
  | reviewCheck (gs : List NewGrade) (reason : ReviewReason)
  /-- `grade_run_item`: the commit. -/
  | gradeCommit (gs : List NewGrade) (review : Option ReviewReason)
  /-- `_mark_failed` after grading raised. -/
  | markGradingFailed (error : String)
  /-- `_maybe_complete_run`, then return. -/
  | maybeComplete (ret : Return)
  deriving DecidableEq

inductive Phase
  /-- Before the initial read. -/
  | start
  | at (v : Loaded) (pc : Pc)
  deriving DecidableEq

/-- What the graders do with an output: raise, or produce grades and perhaps a reason for a
human review. -/
inductive GradingOutcome
  | raises (error : String)
  | graded (gs : List NewGrade) (review : Option ReviewReason)
  deriving DecidableEq

/-- What the environment decides during one step. -/
structure Choice where
  completion : Completion
  grading : GradingOutcome
  now : Timestamp := 0

/-- Postgres, Redis and the broker. -/
structure Backend where
  db : Db
  artifacts : ArtifactKey → Option Artifact
  /-- Messages on `evals` that no worker has taken. -/
  queue : List ItemId
  /-- Every message ever published on `evals`. -/
  sent : List ItemId
  /-- Notices on `evals.dlq`. -/
  dlq : List ItemId

inductive Next
  | goto (p : Phase)
  | done (ret : Return)
  | raised (error : String)
  deriving DecidableEq

/-- Does the execution go on, and where? -/
def Next.phase? : Next → Option Phase
  | .goto p => some p
  | _ => none

/-! ## 3. One step of `execute_run_item` -/

/-- The joined row of the initial read. -/
def loadRunItem (cat : Catalog) (db : Db) (rid : ItemId) :
    Option (RunItem × Task × ModelEndpoint × EvalRunStatus) := do
  let row ← db.items.get rid
  let task ← cat.tasks.get row.taskId
  let endpoint ← cat.endpoints.get row.modelEndpointId
  let run ← db.runs.get row.evalRunId
  return (row, task, endpoint, run.status)

/-- The head of `for attempt in range(1, max_attempts + 1)`, and what follows an exhausted
loop. -/
def nextAttempt (retry : RetryConfig) (attempt : Nat) (lastError : String) : Pc :=
  let n := retry.maxAttempts
  if attempt ≤ n then .markRunning attempt
  else .markDeadLettered s!"exhausted {n} attempts: {lastError}"

/-- The initial read and the four gates behind it. -/
def startRunItem (cfg : Config) (rid : ItemId) (db : Db) : Next :=
  match loadRunItem cfg.catalog db rid with
  | none => .raised s!"run item {rid} not found"
  | some (row, task, endpoint, runStatus) =>
    let v : Loaded := ⟨row.evalRunId, task, endpoint, row.cost, row.tokens⟩
    if runStatus = .cancelled then .goto (.at v .skipCancelled)
    else if runStatus = .failed then .goto (.at v .skipAborted)
    else if row.status = .succeeded then .done ⟨.item .succeeded, some .alreadySucceeded⟩
    else if row.status ≠ .queued ∧ row.status ≠ .deadLettered then
      .done ⟨.item row.status, some .notExecutable⟩
    else .goto (.at v (nextAttempt cfg.retry 1 "None"))

/-- The row the finalising update writes. -/
def finalisedRow (rid : ItemId) (v : Loaded) (r : CompletionResult) (row : RunItem) : RunItem :=
  { row with
    status := .succeeded
    latencyMs := some r.latencyMs
    promptTokens := some r.promptTokens
    completionTokens := some r.completionTokens
    costUsd := some (computeCost v.endpoint.modelId r.promptTokens r.completionTokens)
    error := none
    artifactKey := some ⟨rid⟩ }

/-- The rollup of the finalising transaction: the deltas against the initial read. -/
def rollup (v : Loaded) (r : CompletionResult) (run : EvalRun) : EvalRun :=
  let cost := computeCost v.endpoint.modelId r.promptTokens r.completionTokens
  let newTokens := r.promptTokens + r.completionTokens
  { run with
    totalCostUsd := run.totalCostUsd + (cost - v.prevCost)
    totalTokens := run.totalTokens + (newTokens - v.prevTokens) }

/-- The finalising transaction: the new database, and whether the guarded update hit the row. -/
def finaliseRunItem (db : Db) (rid : ItemId) (v : Loaded) (r : CompletionResult) : Db × Bool :=
  if db.itemsHit rid (fun row => row.status == .running) = 0 then (db, false)
  else
    ((db.updateItem rid (fun row => row.status == .running) (finalisedRow rid v r)).updateRun
      v.evalRunId (fun _ => true) (rollup v r), true)

/-- The artifact of a completion. -/
def artifactOf (v : Loaded) (r : CompletionResult) : Artifact :=
  ⟨v.task.prompt, v.endpoint.modelId, v.endpoint.baseUrl, r⟩

/-- `set_artifact`. -/
def setArtifact (m : Backend) (rid : ItemId) (a : Artifact) : Backend :=
  { m with artifacts := fun key => if key = ⟨rid⟩ then some a else m.artifacts key }

/-- A text Postgres stores: it holds no U+0000. -/
def storableText (s : String) : Bool := s.toList.all fun c => c.toNat != 0

/-- What the driver raises for a text that is not. -/
def notStorable : String := "invalid input for a text column"

/-- The rows of these grades can be inserted. -/
def storableGrades (gs : List NewGrade) : Bool := gs.all fun g => storableText g.rationale

/-- The error `_mark_failed` is called with when grading has raised `e`. -/
def gradingError (e : String) : String := s!"grading pipeline failed: {e}"

/-- The rows the commit of `grade_run_item` inserts. -/
def insertGrades (db : Db) (rid : ItemId) (gs : List NewGrade) (review : Option ReviewReason) :
    Db :=
  { db with
    grades := db.grades ++ gs.map fun g => { toNewGrade := g, runItemId := rid }
    reviews := db.reviews ++ review.toList.map fun reason => { runItemId := rid, reason } }

/-- One step of `execute_run_item` after its initial read. -/
def stepRunItem (cfg : Config) (c : Choice) (rid : ItemId) (v : Loaded) (m : Backend) :
    Pc → Backend × Next
  | .skipCancelled =>
    ({ m with db := markCancelled m.db rid }, .done ⟨.item .failed, some .cancelled⟩)
  | .skipAborted =>
    ({ m with db := markFailed m.db rid "eval run aborted" },
      .done ⟨.item .failed, some .runAborted⟩)
  | .markRunning attempt =>
    ({ m with db := markRunning m.db rid }, .goto (.at v (.complete attempt)))
  | .complete attempt =>
    match c.completion with
    | .result r => (m, .goto (.at v (.checkCancelled r)))
    | .retryable e => (m, .goto (.at v (nextAttempt cfg.retry (attempt + 1) e)))
    | .nonRetryable e => (m, .goto (.at v (.markNonRetryable e)))
  | .markNonRetryable e =>
    ({ m with db := markFailed m.db rid e },
      .goto (.at v (.maybeComplete ⟨.item .failed, some .nonRetryable⟩)))
  | .markDeadLettered e =>
    ({ m with db := markDeadLettered m.db rid e }, .goto (.at v .publishDeadLetter))
  | .publishDeadLetter =>
    ({ m with dlq := m.dlq ++ [rid] },
      .goto (.at v (.maybeComplete ⟨.item .deadLettered, some .retriesExhausted⟩)))
  | .checkCancelled r =>
    if (m.db.runs.get v.evalRunId).map EvalRun.status = some .cancelled then
      (m, .goto (.at v .dropCancelled))
    else (m, .goto (.at v (.writeArtifact r)))
  | .dropCancelled =>
    ({ m with db := markCancelled m.db rid }, .done ⟨.item .failed, some .cancelled⟩)
  | .writeArtifact r => (setArtifact m rid (artifactOf v r), .goto (.at v (.finalise r)))
  | .finalise r =>
    let (db, updated) := finaliseRunItem m.db rid v r
    if updated then ({ m with db }, .goto (.at v (.abortCheck r)))
    else (m, .done ⟨.skipped, some .alreadyFinalized⟩)
  | .abortCheck r =>
    let (db, aborted) := abortOverBudget m.db v.evalRunId cfg.spendLimit c.now
    if aborted then ({ m with db }, .done ⟨.item .succeeded, some .runAborted⟩)
    else (m, .goto (.at v (.gradeRead r)))
  | .gradeRead r =>
    if m.db.grades.any fun g => g.runItemId == rid then
      (m, .goto (.at v (.maybeComplete ⟨.item .succeeded, none⟩)))
    else (m, .goto (.at v (.judge r)))
  | .judge _ =>
    match c.grading with
    | .raises e => (m, .goto (.at v (.markGradingFailed e)))
    | .graded gs none => (m, .goto (.at v (.gradeCommit gs none)))
    | .graded gs (some reason) => (m, .goto (.at v (.reviewCheck gs reason)))
  | .reviewCheck gs reason =>
    if m.db.reviews.any fun x => x.runItemId == rid then
      (m, .goto (.at v (.gradeCommit gs none)))
    else (m, .goto (.at v (.gradeCommit gs (some reason))))
  | .gradeCommit gs review =>
    if storableGrades gs then
      ({ m with db := insertGrades m.db rid gs review },
        .goto (.at v (.maybeComplete ⟨.item .succeeded, none⟩)))
    else (m, .goto (.at v (.markGradingFailed notStorable)))
  | .markGradingFailed e =>
    ({ m with db := markFailed m.db rid (gradingError e) },
      .goto (.at v (.maybeComplete ⟨.item .failed, some .gradingFailed⟩)))
  | .maybeComplete ret => ({ m with db := maybeCompleteRun m.db v.evalRunId c.now }, .done ret)

/-- One step of `execute_run_item`. -/
def executeRunItem (cfg : Config) (c : Choice) (rid : ItemId) (m : Backend) :
    Phase → Backend × Next
  | .start => (m, startRunItem cfg rid m.db)
  | .at v pc => stepRunItem cfg c rid v m pc

end EvalHarness
