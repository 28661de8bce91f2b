/-
# The API handlers (`app/api/v1/eval_runs.py`, `app/api/v1/dead_letters.py`)

`create_eval_run`, `cancel_eval_run` and `replay_run_item` are the handlers that write runs and
items.  As for the worker, a transaction is a function of the database and `Handler` names the
step a request takes next.  A handler's first step is its reads, in which a refused request
already ends; the reads of two different rows are two steps.
-/
import EvalHarness.Worker

namespace EvalHarness

/-- An `HTTPException`. -/
structure HttpError where
  status : Nat
  detail : String
  deriving DecidableEq, Repr

/-- The `.value` of a run status. -/
def EvalRunStatus.value : EvalRunStatus → String
  | .pending => "pending"
  | .running => "running"
  | .completed => "completed"
  | .failed => "failed"
  | .cancelled => "cancelled"

/-- The `.value` of an item status. -/
def RunItemStatus.value : RunItemStatus → String
  | .queued => "queued"
  | .running => "running"
  | .succeeded => "succeeded"
  | .failed => "failed"
  | .deadLettered => "dead_lettered"

/-! ## 1. `create_eval_run` -/

/-- The request body; `min_length=1` is the proof. -/
structure EvalRunCreate where
  taskSetId : TaskSetId
  modelEndpointIds : List EndpointId
  nonempty : modelEndpointIds ≠ []

/-- The checks of `create_eval_run` and the pairs it fans out to, in the order of the nested
comprehension. -/
def fanOut (cat : Catalog) (payload : EvalRunCreate) :
    Except HttpError (List (TaskId × EndpointId)) :=
  if payload.taskSetId ∉ cat.taskSets then .error ⟨404, "Task set not found"⟩
  else
    let endpointIds := payload.modelEndpointIds.eraseDups
    let endpoints := cat.endpoints.keys.filter fun e => endpointIds.contains e
    let missing := endpointIds.filter fun e => !endpoints.contains e
    if missing ≠ [] then
      let ids := ", ".intercalate (missing.map toString)
      .error ⟨400, s!"unknown model endpoint ids: {ids}"⟩
    else
      let tasks := cat.tasks.rows.filter fun t => t.2.taskSetId == payload.taskSetId
      .ok (tasks.flatMap fun t => endpoints.map fun e => (t.1, e))

/-- The rows `create_eval_run` adds under fresh ids; `none` when an id is taken. -/
def insertRun (db : Db) (payload : EvalRunCreate) (pairs : List (TaskId × EndpointId))
    (runId : RunId) (itemIds : List ItemId) (now : Timestamp) : Option Db :=
  if itemIds.length ≠ pairs.length then none
  else do
    let run : EvalRun :=
      if pairs = [] then
        { taskSetId := payload.taskSetId, status := .completed, completedAt := some now,
          createdAt := now }
      else { taskSetId := payload.taskSetId, status := .running, createdAt := now }
    let rows := itemIds.zip (pairs.map fun p =>
      ({ evalRunId := runId, taskId := p.1, modelEndpointId := p.2 } : RunItem))
    let runs ← db.runs.insertAll [(runId, run)]
    let items ← db.items.insertAll rows
    return { db with runs, items }

/-! ## 2. `cancel_eval_run` -/

/-- The transaction of `cancel_eval_run`.  Its second update does not depend on the first. -/
def cancelEvalRun (db : Db) (r : RunId) (now : Timestamp) : Db :=
  (db.updateRun r (fun run => run.status == .pending || run.status == .running) fun run =>
    { run with status := .cancelled, completedAt := some now }).updateItemsOf r
      (fun row => row.status == .queued)
      fun row => { row with status := .failed, error := some "eval run cancelled" }

/-- The read of `cancel_eval_run`: `.ok true` when it goes on to the transaction. -/
def cancelRead (db : Db) (r : RunId) : Except HttpError Bool :=
  match db.runs.get r with
  | none => .error ⟨404, "Eval run not found"⟩
  | some run =>
    let value := run.status.value
    if run.status = .completed ∨ run.status = .failed then
      .error ⟨409, s!"eval run already {value}"⟩
    else .ok (run.status != .cancelled)

/-! ## 3. `replay_run_item` -/

/-- The read of the item: the run it belongs to, or the refusal. -/
def replayReadItem (db : Db) (rid : ItemId) : Except HttpError RunId :=
  match db.items.get rid with
  | none => .error ⟨404, "Run item not found"⟩
  | some row =>
    let value := row.status.value
    if row.status ≠ .deadLettered then
      .error ⟨409, s!"run item is {value}, not dead_lettered"⟩
    else .ok row.evalRunId

/-- The read of the run. -/
def replayReadRun (db : Db) (r : RunId) : Except HttpError Unit :=
  if (db.runs.get r).map EvalRun.status = some .cancelled then
    .error ⟨409, "eval run is cancelled"⟩
  else .ok ()

/-- The first update of `replay_run_item`. -/
def requeueItem (db : Db) (rid : ItemId) : Db :=
  db.updateItem rid (fun row => row.status == .deadLettered) fun row =>
    { row with status := .queued, error := none }

/-- The second update of `replay_run_item`. -/
def reopenRun (db : Db) (r : RunId) : Db :=
  db.updateRun r (fun run => run.status == .failed) fun run =>
    { run with status := .running, completedAt := none, error := none }

/-- The transaction of `replay_run_item`.  The row counts are not looked at. -/
def replayRunItem (db : Db) (rid : ItemId) (r : RunId) : Db := reopenRun (requeueItem db rid) r

/-! ## 4. Where a request can stand -/

/-- `enqueue_run_item`. -/
def enqueueRunItem (m : Backend) (rid : ItemId) : Backend :=
  { m with queue := m.queue ++ [rid], sent := m.sent ++ [rid] }

/-- The step a request takes next. -/
inductive Handler
  /-- `create_eval_run` after its commit: the items it has still to enqueue. -/
  | createEnqueue (pending : List ItemId)
  /-- `cancel_eval_run` after its read. -/
  | cancelCommit (r : RunId)
  /-- `replay_run_item` between the read of the item and the read of the run. -/
  | replayReadRun (rid : ItemId) (r : RunId)
  /-- `replay_run_item` before its transaction. -/
  | replayCommit (rid : ItemId) (r : RunId)
  /-- `replay_run_item` after its commit. -/
  | replayEnqueue (rid : ItemId)
  deriving DecidableEq

/-- One step of a request after its first read. -/
def stepHandler (m : Backend) (now : Timestamp) : Handler → Backend × Option Handler
  | .createEnqueue [] => (m, none)
  | .createEnqueue (i :: rest) =>
    (enqueueRunItem m i, if rest = [] then none else some (.createEnqueue rest))
  | .cancelCommit r => ({ m with db := cancelEvalRun m.db r now }, none)
  | .replayReadRun rid r =>
    match replayReadRun m.db r with
    | .error _ => (m, none)
    | .ok () => (m, some (.replayCommit rid r))
  | .replayCommit rid r =>
    ({ m with db := replayRunItem m.db rid r }, some (.replayEnqueue rid))
  | .replayEnqueue rid => (enqueueRunItem m rid, none)

end EvalHarness
