/-
# The stored data

The rows of `app/models` that the worker and the API handlers read or write, the artifact blob
of `app/artifacts.py`, and the result types of the provider.  Money is an integer number of
micro-dollars: `cost_usd` and `total_cost_usd` are `Numeric(12,6)` columns, so every stored
amount is a multiple of 0.000001.  A spend limit is written in the same unit; a finer one
compares with such amounts exactly as its floor does.

Left out are the columns no modelled function reads: `updated_at`, `started_at`, the `created_at`
of other rows than runs, the task set's name and the endpoint's provider.
-/
import EvalHarness.Lib.PyJson
import EvalHarness.Lib.Table

namespace EvalHarness

abbrev RunId := Nat
abbrev ItemId := Nat
abbrev TaskId := Nat
abbrev TaskSetId := Nat
abbrev EndpointId := Nat
abbrev ReviewId := Nat
abbrev Timestamp := Nat
/-- An amount of money in units of 0.000001 USD. -/
abbrev MicroUsd := Int

/-! ## 1. `app/models/enums.py` -/

inductive GraderType
  | exactMatch | regex | llmJudge
  deriving DecidableEq, Repr

inductive EvalRunStatus
  | pending | running | completed | failed | cancelled
  deriving DecidableEq, Repr

inductive RunItemStatus
  | queued | running | succeeded | failed | deadLettered
  deriving DecidableEq, Repr

inductive GraderKind
  | deterministic | llmJudge
  deriving DecidableEq, Repr

inductive ReviewReason
  | judgeDisagreement | lowConfidence
  deriving DecidableEq, Repr

inductive ReviewStatus
  | «open» | claimed | resolved
  deriving DecidableEq, Repr

/-- No more work will be started for an item in this status without a replay. -/
def RunItemStatus.isTerminal : RunItemStatus → Bool
  | .queued | .running => false
  | .succeeded | .failed | .deadLettered => true

/-- The filter of the completion check: `status IN ('queued', 'running')`. -/
def RunItemStatus.isActive (s : RunItemStatus) : Bool := !s.isTerminal

/-! ## 2. Rows -/

structure Task where
  taskSetId : TaskSetId
  prompt : String
  capability : String
  expectedOutput : Option String
  graderType : GraderType
  graderConfig : Option (List (Py.Str × Py.Json)) := none
  deriving DecidableEq

structure ModelEndpoint where
  name : String
  modelId : String
  modelVersion : String
  baseUrl : Option String
  deriving DecidableEq, Repr

structure EvalRun where
  taskSetId : TaskSetId
  status : EvalRunStatus
  completedAt : Option Timestamp := none
  totalCostUsd : MicroUsd := 0
  totalTokens : Int := 0
  error : Option String := none
  createdAt : Timestamp := 0
  deriving DecidableEq, Repr

/-- `artifact:<run_item_id>`, the Redis key `build_artifact_key` forms. -/
structure ArtifactKey where
  runItemId : ItemId
  deriving DecidableEq, Repr

structure RunItem where
  evalRunId : RunId
  taskId : TaskId
  modelEndpointId : EndpointId
  status : RunItemStatus := .queued
  attemptCount : Nat := 0
  latencyMs : Option Int := none
  promptTokens : Option Int := none
  completionTokens : Option Int := none
  costUsd : Option MicroUsd := none
  error : Option String := none
  artifactKey : Option ArtifactKey := none
  deriving DecidableEq, Repr

/-- `run_item.cost_usd or 0`, the cost an item contributes to its run. -/
def RunItem.cost (row : RunItem) : MicroUsd := row.costUsd.getD 0

/-- `(prompt_tokens or 0) + (completion_tokens or 0)`. -/
def RunItem.tokens (row : RunItem) : Int :=
  row.promptTokens.getD 0 + row.completionTokens.getD 0

/-- What a grader produced for an item.  Scores are `Numeric(4,3)`, counted in thousandths. -/
structure NewGrade where
  grader : GraderKind
  score : Option Int
  passed : Option Bool
  rubricScores : Option (List (String × Rat)) := none
  rationale : String
  deriving DecidableEq

structure Grade extends NewGrade where
  runItemId : ItemId
  deriving DecidableEq

/-- A value of a `Numeric(4,3)` column, which may also be NaN.  Nobody stores one: the schemas that
let a label or a judge's score in turn a NaN away. -/
inductive Score
  | nan
  | milli (n : Int)
  deriving DecidableEq, Repr

structure ReviewItem where
  runItemId : ItemId
  reason : ReviewReason
  status : ReviewStatus := .open
  reviewerLabel : Option Score := none
  reviewerNotes : Option String := none
  claimedAt : Option Timestamp := none
  resolvedAt : Option Timestamp := none
  deriving DecidableEq

/-! ## 3. Providers and artifacts -/

structure CompletionResult where
  text : String
  promptTokens : Int
  completionTokens : Int
  latencyMs : Int
  deriving DecidableEq, Repr

/-- What one call of `provider.complete` can do. -/
inductive Completion
  | result (r : CompletionResult)
  | retryable (error : String)
  | nonRetryable (error : String)
  deriving DecidableEq, Repr

/-- The blob `set_artifact` writes: the request and the raw response. -/
structure Artifact where
  prompt : String
  modelId : String
  baseUrl : Option String
  rawResponse : CompletionResult
  deriving DecidableEq, Repr

/-! ## 4. The database -/

/-- The rows that exist before a run and that no modelled operation changes. -/
structure Catalog where
  taskSets : List TaskSetId
  tasks : Table TaskId Task
  endpoints : Table EndpointId ModelEndpoint

structure Db where
  runs : Table RunId EvalRun
  items : Table ItemId RunItem
  grades : List Grade
  reviews : List ReviewItem

/-- The freshly migrated database. -/
def Db.empty : Db := ⟨Table.empty, Table.empty, [], []⟩

/-- At most one grade for each item and kind of grader, and at most one review for each item.  No
constraint of the schema says so. -/
structure Db.UniqueRows (db : Db) : Prop where
  grades : ∀ i kind, (db.grades.countP fun g => g.runItemId == i && g.grader == kind) ≤ 1
  reviews : ∀ i, (db.reviews.countP fun x => x.runItemId == i) ≤ 1

/-- `UPDATE run_item SET f WHERE id = rid AND guard`. -/
def Db.updateItem (db : Db) (rid : ItemId) (guard : RunItem → Bool) (f : RunItem → RunItem) : Db :=
  { db with items := db.items.updateWhere (fun k row => k == rid && guard row) f }

/-- `UPDATE run_item SET f WHERE eval_run_id = r AND guard`. -/
def Db.updateItemsOf (db : Db) (r : RunId) (guard : RunItem → Bool) (f : RunItem → RunItem) : Db :=
  { db with items := db.items.updateWhere (fun _ row => row.evalRunId == r && guard row) f }

/-- `UPDATE eval_run SET f WHERE id = r AND guard`. -/
def Db.updateRun (db : Db) (r : RunId) (guard : EvalRun → Bool) (f : EvalRun → EvalRun) : Db :=
  { db with runs := db.runs.updateWhere (fun k run => k == r && guard run) f }

/-- The row count `updateRun` reports. -/
def Db.runsHit (db : Db) (r : RunId) (guard : EvalRun → Bool) : Nat :=
  db.runs.count fun k run => k == r && guard run

/-- The row count `updateItem` reports. -/
def Db.itemsHit (db : Db) (rid : ItemId) (guard : RunItem → Bool) : Nat :=
  db.items.count fun k row => k == rid && guard row

/-! ## 5. What the other tables see of an update

One lemma for each table an update leaves alone, and one that says what `get` sees of the table
it writes. -/

section Updates

variable (db : Db) (rid : ItemId) (r : RunId)
  (gi : RunItem → Bool) (fi : RunItem → RunItem) (gr : EvalRun → Bool) (fr : EvalRun → EvalRun)

@[simp] theorem Db.updateItem_runs : (db.updateItem rid gi fi).runs = db.runs := rfl
@[simp] theorem Db.updateItem_grades : (db.updateItem rid gi fi).grades = db.grades := rfl
@[simp] theorem Db.updateItem_reviews : (db.updateItem rid gi fi).reviews = db.reviews := rfl
@[simp] theorem Db.updateItemsOf_runs : (db.updateItemsOf r gi fi).runs = db.runs := rfl
@[simp] theorem Db.updateItemsOf_grades : (db.updateItemsOf r gi fi).grades = db.grades := rfl
@[simp] theorem Db.updateItemsOf_reviews : (db.updateItemsOf r gi fi).reviews = db.reviews := rfl
@[simp] theorem Db.updateRun_items : (db.updateRun r gr fr).items = db.items := rfl
@[simp] theorem Db.updateRun_grades : (db.updateRun r gr fr).grades = db.grades := rfl
@[simp] theorem Db.updateRun_reviews : (db.updateRun r gr fr).reviews = db.reviews := rfl

@[simp] theorem Db.updateItem_get (i : ItemId) :
    (db.updateItem rid gi fi).items.get i =
      (db.items.get i).map fun row => if i = rid ∧ gi row = true then fi row else row := by
  simp [Db.updateItem, Bool.and_eq_true]

@[simp] theorem Db.updateItemsOf_get (i : ItemId) :
    (db.updateItemsOf r gi fi).items.get i =
      (db.items.get i).map fun row =>
        if row.evalRunId = r ∧ gi row = true then fi row else row := by
  simp [Db.updateItemsOf, Bool.and_eq_true]

@[simp] theorem Db.updateRun_get (r' : RunId) :
    (db.updateRun r gr fr).runs.get r' =
      (db.runs.get r').map fun run => if r' = r ∧ gr run = true then fr run else run := by
  simp [Db.updateRun, Bool.and_eq_true]

theorem Db.runsHit_ne_zero {db : Db} {r : RunId} {gr : EvalRun → Bool} :
    db.runsHit r gr ≠ 0 ↔ ∃ run, db.runs.get r = some run ∧ gr run = true := by
  simp only [Db.runsHit, Table.count_ne_zero, Bool.and_eq_true, beq_iff_eq]
  constructor
  · rintro ⟨k, run, hk, rfl, hg⟩
    exact ⟨run, hk, hg⟩
  · rintro ⟨run, hk, hg⟩
    exact ⟨r, run, hk, rfl, hg⟩

theorem Db.itemsHit_ne_zero {db : Db} {rid : ItemId} {gi : RunItem → Bool} :
    db.itemsHit rid gi ≠ 0 ↔ ∃ row, db.items.get rid = some row ∧ gi row = true := by
  simp only [Db.itemsHit, Table.count_ne_zero, Bool.and_eq_true, beq_iff_eq]
  constructor
  · rintro ⟨k, row, hk, rfl, hg⟩
    exact ⟨row, hk, hg⟩
  · rintro ⟨row, hk, hg⟩
    exact ⟨rid, row, hk, rfl, hg⟩

end Updates

end EvalHarness
