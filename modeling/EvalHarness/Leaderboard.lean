/-
# The leaderboard (`app/api/v1/leaderboard.py`)

`_EFFECTIVE_BODY` joins each succeeded item with its review and its grades; the three endpoints
aggregate that relation.  Section 1 has the queries, operator by operator.  Section 2 says what the
leaderboard is for: a score per item by precedence, and statistics per endpoint.
`leaderboard_computes` proves that the queries compute it wherever grades and reviews are unique.

Left out: the conversion of the numerics into floats, field by field, in the handlers.  The order
of names is the database's collation, a parameter.
-/
import EvalHarness.Lib.Sql
import EvalHarness.Schema

namespace EvalHarness

/-! ## 1. The queries -/

/-- A score as a `numeric`. -/
def Score.numeric : Score → Sql.Numeric
  | .nan => ⊤
  | .milli n => ((n / 1000 : ℚ) : Sql.Numeric)

/-- The score of a grade. -/
def NewGrade.value (g : NewGrade) : Option Score := g.score.map .milli

def MicroUsd.numeric (cost : MicroUsd) : Sql.Numeric := ((cost / 1000000 : ℚ) : Sql.Numeric)

/-- A row of the relation `effective`. -/
structure Effective where
  modelEndpointId : EndpointId
  evalRunId : RunId
  latencyMs : Option Int
  costUsd : Option MicroUsd
  capability : String
  score : Option Score
  deriving DecidableEq

/-- The select list of `_EFFECTIVE_BODY`, with its `COALESCE`. -/
def Effective.of (row : RunItem) (task : Task) (label judge deterministic : Option Score) :
    Effective :=
  { modelEndpointId := row.modelEndpointId, evalRunId := row.evalRunId, latencyMs := row.latencyMs,
    costUsd := row.costUsd, capability := task.capability,
    score := label.or (judge.or deterministic) }

/-- `_EFFECTIVE_BODY` with the filters of the caller. -/
def effective (cat : Catalog) (db : Db) (filters : Task → Bool) : List Effective :=
  let items := Sql.join (fun (ri : ItemId × RunItem) (t : TaskId × Task) => t.1 == ri.2.taskId)
    db.items.rows cat.tasks.rows
  let reviewed := Sql.leftJoin
    (fun (ri, _) rv => rv.runItemId == ri.1 && rv.status == .resolved) items db.reviews
  let judged := Sql.leftJoin
    (fun ((ri, _), _) jg => jg.runItemId == ri.1 && jg.grader == .llmJudge && jg.score.isSome)
    reviewed db.grades
  let graded := Sql.leftJoin
    (fun (((ri, _), _), _) dg =>
      dg.runItemId == ri.1 && dg.grader == .deterministic && dg.score.isSome)
    judged db.grades
  (graded.filter fun ((((ri, t), _), _), _) => ri.2.status == .succeeded && filters t.2).map
    fun ((((ri, t), rv), jg), dg) =>
      .of ri.2 t.2 (rv.bind (·.reviewerLabel)) (jg.bind (·.value)) (dg.bind (·.value))

/-- `_task_filters`.  An empty capability is no filter. -/
def taskFilters (taskSetId : Option TaskSetId) (capability : Option String) (task : Task) : Bool :=
  (match taskSetId with
    | none => true
    | some taskSetId => task.taskSetId == taskSetId) &&
  (match capability with
    | none => true
    | some capability => capability == "" || task.capability == capability)

/-- `ROUND(AVG(e.score)::numeric, 3)`. -/
def meanScore (rows : List Effective) : Option Sql.Numeric :=
  (Sql.avg (rows.map fun e => e.score.map Score.numeric)).map (Sql.round 3)

/-- `ROUND(AVG((e.score >= 0.5)::int)::numeric, 3)`. -/
def passRate (rows : List Effective) : Option Sql.Numeric :=
  (Sql.avg (rows.map fun e => e.score.map fun score =>
    if ((1 / 2 : ℚ) : Sql.Numeric) ≤ score.numeric then 1 else 0)).map (Sql.round 3)

structure LeaderboardRow where
  modelEndpointId : EndpointId
  name : String
  meanScore : Option Sql.Numeric
  passRate : Option Sql.Numeric
  n : Nat
  meanLatencyMs : Option Sql.Numeric
  p95LatencyMs : Option Sql.Numeric
  totalCostUsd : Option Sql.Numeric
  costPer1k : Option Sql.Numeric
  deriving DecidableEq

/-- The select list of `_LEADERBOARD_SQL` over one group. -/
def LeaderboardRow.of (id : EndpointId) (name : String) (rows : List Effective) : LeaderboardRow :=
  let latencies := rows.map (·.latencyMs)
  let total := Sql.sum (rows.map fun e => e.costUsd.map MicroUsd.numeric)
  { modelEndpointId := id, name, meanScore := EvalHarness.meanScore rows,
    passRate := EvalHarness.passRate rows, n := rows.length
    meanLatencyMs := (Sql.avg (latencies.map fun l => l.map fun ms => ((ms : ℚ) : Sql.Numeric))).map
      (Sql.round 1)
    p95LatencyMs := (Sql.percentileCont (95 / 100) latencies).map fun ms => Sql.round 1 ms
    totalCostUsd := total
    costPer1k := total.map fun s => Sql.round 6 (Sql.div (Sql.scale s 1000) rows.length) }

/-- `JOIN model_endpoint me ON me.id = e.model_endpoint_id`. -/
def joinEndpoints (cat : Catalog) (rows : List Effective) :
    List (Effective × EndpointId × ModelEndpoint) :=
  Sql.join (fun e me => me.1 == e.modelEndpointId) rows cat.endpoints.rows

/-- The `FROM` and the `WHERE` of `_LEADERBOARD_SQL`. -/
def scoredRows (cat : Catalog) (db : Db) (filters : Task → Bool) :
    List (Effective × EndpointId × ModelEndpoint) :=
  (joinEndpoints cat (effective cat db filters)).filter fun x => x.1.score.isSome

/-- `_LEADERBOARD_SQL` in front of its `ORDER BY`. -/
def leaderboardRows (cat : Catalog) (db : Db) (filters : Task → Bool) : List LeaderboardRow :=
  (Sql.groupBy (fun x => (x.2.1, x.2.2.name)) (scoredRows cat db filters)).map fun g =>
    .of g.1.1 g.1.2 (g.2.map (·.1))

/-- `_LEADERBOARD_SQL`. -/
def leaderboard (collation : String → String → Bool) (cat : Catalog) (db : Db)
    (filters : Task → Bool) : List LeaderboardRow :=
  Sql.orderBy
    (fun r r' => if r.meanScore = r'.meanScore then collation r.name r'.name
      else Sql.ascending r'.meanScore r.meanScore)
    (leaderboardRows cat db filters)

/-- `get_leaderboard`. -/
def getLeaderboard (collation : String → String → Bool) (cat : Catalog) (db : Db)
    (taskSetId : Option TaskSetId) (capability : Option String) : List LeaderboardRow :=
  leaderboard collation cat db (taskFilters taskSetId capability)

/-! ## 2. What they are for -/

/-- The review of an item. -/
def Db.reviewOf (db : Db) (i : ItemId) : Option ReviewItem :=
  db.reviews.find? fun x => x.runItemId == i

/-- The grade an item has from a grader. -/
def Db.gradeOf (db : Db) (i : ItemId) (kind : GraderKind) : Option Grade :=
  db.grades.find? fun g => g.runItemId == i && g.grader == kind

/-- The score of an item: the label of a resolved review, else the judge's score, else the
deterministic one. -/
def Db.effectiveScore (db : Db) (i : ItemId) : Option Score :=
  match (db.reviewOf i).bind fun x => if x.status = .resolved then x.reviewerLabel else none with
  | some label => some label
  | none =>
    match (db.gradeOf i .llmJudge).bind (·.value) with
    | some judge => some judge
    | none => (db.gradeOf i .deterministic).bind (·.value)

/-- The succeeded items whose task passes the filters. -/
def Db.selected (cat : Catalog) (db : Db) (filters : Task → Bool) :
    List (ItemId × RunItem × Task) :=
  db.items.rows.filterMap fun x => (cat.tasks.get x.2.taskId).bind fun task =>
    if x.2.status = .succeeded ∧ filters task = true then some (x.1, x.2, task) else none

/-- The row of `effective` a selected item is to have. -/
def Db.effectiveRow (db : Db) (x : ItemId × RunItem × Task) : Effective :=
  { modelEndpointId := x.2.1.modelEndpointId, evalRunId := x.2.1.evalRunId,
    latencyMs := x.2.1.latencyMs, costUsd := x.2.1.costUsd, capability := x.2.2.capability,
    score := db.effectiveScore x.1 }

/-- The selected items of an endpoint that have a score, and their scores. -/
def Db.scored (cat : Catalog) (db : Db) (filters : Task → Bool) (id : EndpointId) :
    List (RunItem × Score) :=
  (db.selected cat filters).filterMap fun x =>
    if x.2.1.modelEndpointId = id then (db.effectiveScore x.1).map fun score => (x.2.1, score)
    else none

/-! ## 3. The effective relation -/

section Relation

variable {cat : Catalog} {db : Db} {filters : Task → Bool}

/-- The join with the tasks finds each item's task. -/
theorem join_tasks : Sql.join (fun (ri : ItemId × RunItem) (t : TaskId × Task) =>
      t.1 == ri.2.taskId) db.items.rows cat.tasks.rows =
    db.items.rows.filterMap fun ri => (cat.tasks.get ri.2.taskId).map fun task =>
      (ri, (ri.2.taskId, task)) := by
  rw [Sql.join_of_unique fun ri _ => cat.tasks.countP_key_le_one ri.2.taskId]
  refine List.filterMap_congr fun ri _ => ?_
  rw [Table.find?_rows, Option.map_map]
  rfl

theorem Db.UniqueRows.reviews_on (hdb : db.UniqueRows) (i : ItemId) :
    (db.reviews.countP fun rv => rv.runItemId == i && rv.status == .resolved) ≤ 1 := by
  refine le_trans (List.countP_mono_left fun rv _ h => ?_) (hdb.reviews i)
  simp only [Bool.and_eq_true] at h
  exact h.1

theorem Db.UniqueRows.grades_on (hdb : db.UniqueRows) (i : ItemId) (kind : GraderKind) :
    (db.grades.countP fun g => g.runItemId == i && g.grader == kind && g.score.isSome) ≤ 1 := by
  refine le_trans (List.countP_mono_left fun g _ h => ?_) (hdb.grades i kind)
  rw [Bool.and_eq_true] at h
  exact h.1

/-- What the join with the reviews contributes to the `COALESCE`. -/
theorem label_eq (hdb : db.UniqueRows) (i : ItemId) :
    (db.reviews.find? fun rv => rv.runItemId == i && rv.status == .resolved).bind
        (·.reviewerLabel) =
      (db.reviewOf i).bind fun x => if x.status = .resolved then x.reviewerLabel else none := by
  rw [Sql.find?_and (hdb.reviews i), ← Db.reviewOf]
  cases db.reviewOf i with
  | none => rfl
  | some rv => by_cases hst : rv.status = .resolved <;> simp [Option.filter_some, hst]

/-- What the joins with the grades contribute to it. -/
theorem value_eq (hdb : db.UniqueRows) (i : ItemId) (kind : GraderKind) :
    (db.grades.find? fun g => g.runItemId == i && g.grader == kind && g.score.isSome).bind
        (·.value) = (db.gradeOf i kind).bind (·.value) := by
  rw [Sql.find?_and (hdb.grades i kind), ← Db.gradeOf]
  cases db.gradeOf i kind with
  | none => rfl
  | some g => cases hs : g.score <;> simp [Option.filter_some, NewGrade.value, hs]

theorem coalesce_eq (hdb : db.UniqueRows) (i : ItemId) (row : RunItem) (task : Task) :
    Effective.of row task
        ((db.reviews.find? fun rv => rv.runItemId == i && rv.status == .resolved).bind
          (·.reviewerLabel))
        ((db.grades.find? fun g => g.runItemId == i && g.grader == .llmJudge &&
          g.score.isSome).bind (·.value))
        ((db.grades.find? fun g => g.runItemId == i && g.grader == .deterministic &&
          g.score.isSome).bind (·.value)) =
      db.effectiveRow (i, row, task) := by
  rw [label_eq hdb, value_eq hdb, value_eq hdb]
  simp only [Effective.of, Db.effectiveRow, Db.effectiveScore]
  split
  · rename_i label hl
    simp [hl]
  · rename_i hl
    rw [hl, Option.none_or]
    split
    · rename_i judge hj
      simp [hj]
    · rename_i hj
      rw [hj, Option.none_or]

/-- **One row for each selected item**, with its score. -/
theorem effective_eq (hdb : db.UniqueRows) :
    effective cat db filters = (db.selected cat filters).map db.effectiveRow := by
  rw [effective, Sql.leftJoin_of_unique fun x _ => hdb.grades_on x.1.1.1.1 .deterministic,
    Sql.leftJoin_of_unique fun x _ => hdb.grades_on x.1.1.1 .llmJudge,
    Sql.leftJoin_of_unique fun x _ => hdb.reviews_on x.1.1, join_tasks]
  simp only [Db.selected, List.map_filterMap, List.filter_filterMap]
  refine List.filterMap_congr fun ri _ => ?_
  cases cat.tasks.get ri.2.taskId with
  | none => rfl
  | some task =>
    by_cases hsel : ri.2.status = .succeeded ∧ filters task = true
    · simp [Option.filter_some, hsel, coalesce_eq hdb]
    · have hdrop : (ri.2.status == .succeeded && filters task) = false := by
        simpa using hsel
      simp [Option.filter_some, hsel, hdrop]

end Relation

/-! ## 4. One endpoint of the leaderboard -/

section Endpoint

variable {cat : Catalog} {db : Db} {filters : Task → Bool}

/-- The rows of `effective` that an endpoint's statistics are over. -/
def endpointRows (cat : Catalog) (db : Db) (filters : Task → Bool) (id : EndpointId) :
    List Effective :=
  (effective cat db filters).filter fun e => e.score.isSome && e.modelEndpointId == id

/-- The join with the endpoints finds each row's endpoint. -/
theorem joinEndpoints_eq (rows : List Effective) :
    joinEndpoints cat rows = rows.filterMap fun e =>
      (cat.endpoints.get e.modelEndpointId).map fun me => (e, (e.modelEndpointId, me)) := by
  rw [joinEndpoints, Sql.join_of_unique fun e _ => cat.endpoints.countP_key_le_one e.modelEndpointId]
  refine List.filterMap_congr fun e _ => ?_
  rw [Table.find?_rows, Option.map_map]
  rfl

/-- The joined and scored rows of one endpoint. -/
theorem scoredRows_endpoint (id : EndpointId) :
    ((scoredRows cat db filters).filter fun x => x.2.1 == id) =
      (cat.endpoints.get id).toList.flatMap fun me =>
        (endpointRows cat db filters id).map fun e => (e, (id, me)) := by
  have hrows : ∀ me : ModelEndpoint,
      ((endpointRows cat db filters id).map fun e => (e, (id, me))) =
        (effective cat db filters).filterMap fun e =>
          if e.score.isSome && e.modelEndpointId == id then some (e, (id, me)) else none := by
    intro me
    rw [endpointRows, ← List.filterMap_eq_map, List.filterMap_filter]
    rfl
  rw [scoredRows, joinEndpoints_eq, List.filter_filterMap, List.filter_filterMap]
  cases hget : cat.endpoints.get id with
  | none =>
    rw [Option.toList_none, List.flatMap_nil, List.filterMap_eq_nil_iff]
    intro e _
    by_cases hid : e.modelEndpointId = id
    · simp [hid, hget]
    · cases cat.endpoints.get e.modelEndpointId <;> simp [Option.filter_some, hid]
  | some me =>
    rw [Option.toList_some, List.flatMap_singleton, hrows]
    refine List.filterMap_congr fun e _ => ?_
    by_cases hid : e.modelEndpointId = id
    · cases hs : e.score.isSome <;> simp [Option.filter_some, hid, hget, hs]
    · cases cat.endpoints.get e.modelEndpointId <;> simp [Option.filter_some, hid]

/-- The endpoint's row, if it is to have one. -/
def endpointRow (cat : Catalog) (db : Db) (filters : Task → Bool) (id : EndpointId) :
    List LeaderboardRow :=
  if endpointRows cat db filters id = [] then []
  else (cat.endpoints.get id).toList.map fun me =>
    .of id me.name (endpointRows cat db filters id)

theorem length_endpointRow (id : EndpointId) : (endpointRow cat db filters id).length =
    if cat.endpoints.get id ≠ none ∧ endpointRows cat db filters id ≠ [] then 1 else 0 := by
  rw [endpointRow]
  split <;> cases cat.endpoints.get id <;> simp_all

theorem leaderboardRows_filter (id : EndpointId) :
    ((leaderboardRows cat db filters).filter fun r => r.modelEndpointId == id) =
      endpointRow cat db filters id := by
  have hsel := Sql.groupBy_filter (fun x : Effective × EndpointId × ModelEndpoint =>
    (x.2.1, x.2.2.name)) (scoredRows cat db filters) fun k => k.1 == id
  rw [scoredRows_endpoint] at hsel
  rw [leaderboardRows, List.filter_map]
  refine (congrArg _ hsel).trans ?_
  rw [endpointRow]
  cases cat.endpoints.get id with
  | none => simp [Sql.groupBy]
  | some me =>
    rw [Option.toList_some, List.flatMap_singleton,
      Sql.groupBy_const (k := (id, me.name)) (by simp)]
    by_cases hnil : endpointRows cat db filters id = []
    · simp [hnil]
    · simp [hnil, Function.comp_def]

/-- **The leaderboard's rows for an endpoint**: one over the endpoint's rows, if it has any. -/
theorem leaderboard_filter (collation : String → String → Bool) (id : EndpointId) :
    ((leaderboard collation cat db filters).filter fun r => r.modelEndpointId == id) =
      endpointRow cat db filters id := by
  rw [leaderboard, Sql.filter_orderBy, leaderboardRows_filter]
  rw [leaderboardRows_filter, length_endpointRow]
  split <;> omega

end Endpoint

/-! ## 5. The documented score -/

section Documented

variable {cat : Catalog} {db : Db} {filters : Task → Bool}

/-- The rows of an endpoint are its scored items. -/
theorem endpointRows_scored (hdb : db.UniqueRows) (id : EndpointId) :
    ((endpointRows cat db filters id).map fun e => (e.costUsd, e.score)) =
      (db.scored cat filters id).map fun x => (x.1.costUsd, some x.2) := by
  rw [endpointRows, effective_eq hdb, List.filter_map, List.map_map, ← List.filterMap_eq_map,
    List.filterMap_filter, Db.scored, List.map_filterMap]
  refine List.filterMap_congr fun x _ => ?_
  by_cases hid : x.2.1.modelEndpointId = id
  · cases hs : db.effectiveScore x.1 <;> simp [Db.effectiveRow, hid, hs]
  · simp [Db.effectiveRow, hid]

theorem endpointRows_ne_nil (hdb : db.UniqueRows) (id : EndpointId) :
    endpointRows cat db filters id ≠ [] ↔ db.scored cat filters id ≠ [] := by
  have hlen : (endpointRows cat db filters id).length = (db.scored cat filters id).length := by
    simpa using congrArg List.length (endpointRows_scored hdb id)
  rw [← List.length_pos_iff, ← List.length_pos_iff, hlen]

/-- The statistics of an endpoint over its scored items. -/
structure Statistics (items : List (RunItem × Score)) (r : LeaderboardRow) : Prop where
  n : r.n = items.length
  meanScore : r.meanScore =
    some (Sql.round 3 (Sql.div (items.map fun x => x.2.numeric).sum items.length))
  passRate : r.passRate = some (Sql.round 3 (Sql.div
    ((items.countP fun x => ((1 / 2 : ℚ) : Sql.Numeric) ≤ x.2.numeric : ℚ) : Sql.Numeric)
    items.length))
  totalCostUsd : r.totalCostUsd = Sql.sum (items.map fun x => x.1.costUsd.map MicroUsd.numeric)
  costPer1k : r.costPer1k = r.totalCostUsd.map fun s =>
    Sql.round 6 (Sql.div (Sql.scale s 1000) items.length)

theorem statistics_of {items : List (RunItem × Score)} {rows : List Effective} {id : EndpointId}
    {name : String} (hne : items ≠ [])
    (h : (rows.map fun e => (e.costUsd, e.score)) = items.map fun x => (x.1.costUsd, some x.2)) :
    Statistics items (.of id name rows) := by
  have hlen : rows.length = items.length := by
    simpa using congrArg List.length h
  have hscore : rows.map (·.score) = items.map fun x => some x.2 := by
    simpa [Function.comp_def] using congrArg (List.map Prod.snd) h
  have hcost : rows.map (·.costUsd) = items.map fun x => x.1.costUsd := by
    simpa [Function.comp_def] using congrArg (List.map Prod.fst) h
  have havg : ∀ f : Score → Sql.Numeric, Sql.avg (rows.map fun e => e.score.map f) =
      some (Sql.div (items.map fun x => f x.2).sum items.length) := by
    intro f
    have hvalues : (rows.map fun e => e.score.map f) = (items.map fun x => f x.2).map some := by
      simpa [Function.comp_def] using congrArg (List.map (Option.map f)) hscore
    rw [hvalues, Sql.avg_map_some (by simpa using hne), List.length_map]
  have htotal : (rows.map fun e => e.costUsd.map MicroUsd.numeric) =
      items.map fun x => x.1.costUsd.map MicroUsd.numeric := by
    simpa [Function.comp_def] using congrArg (List.map (Option.map MicroUsd.numeric)) hcost
  refine ⟨hlen, ?_, ?_, ?_, ?_⟩
  · simp only [LeaderboardRow.of, meanScore]
    rw [havg, Option.map_some]
  · have hshare := Sql.sum_indicator (fun x : RunItem × Score =>
      decide (((1 / 2 : ℚ) : Sql.Numeric) ≤ x.2.numeric)) items
    simp only [decide_eq_true_eq] at hshare
    simp only [LeaderboardRow.of, passRate]
    rw [havg fun score => if ((1 / 2 : ℚ) : Sql.Numeric) ≤ score.numeric then 1 else 0,
      Option.map_some, hshare]
  · simp only [LeaderboardRow.of, htotal]
  · simp only [LeaderboardRow.of, hlen]

/-- **The leaderboard computes the documented score.**  Where grades and reviews are unique, the
effective relation has one row for each succeeded item whose task passes the filters, with the
item's score by precedence; and the leaderboard has one row for each endpoint that has such an
item with a score, with the statistics over exactly those items. -/
theorem leaderboard_computes (collation : String → String → Bool) (cat : Catalog) {db : Db}
    (hdb : db.UniqueRows) (taskSetId : Option TaskSetId) (capability : Option String) :
    effective cat db (taskFilters taskSetId capability) =
      (db.selected cat (taskFilters taskSetId capability)).map db.effectiveRow ∧
    (∀ id, ((getLeaderboard collation cat db taskSetId capability).countP fun r =>
        r.modelEndpointId == id) =
      if cat.endpoints.get id ≠ none ∧ db.scored cat (taskFilters taskSetId capability) id ≠ []
      then 1 else 0) ∧
    ∀ r ∈ getLeaderboard collation cat db taskSetId capability,
      (cat.endpoints.get r.modelEndpointId).map (·.name) = some r.name ∧
        Statistics (db.scored cat (taskFilters taskSetId capability) r.modelEndpointId) r := by
  refine ⟨effective_eq hdb, fun id => ?_, fun r hr => ?_⟩
  · rw [List.countP_eq_length_filter, getLeaderboard, leaderboard_filter, length_endpointRow]
    simp only [endpointRows_ne_nil hdb]
  · have hmem : r ∈ endpointRow cat db (taskFilters taskSetId capability) r.modelEndpointId := by
      rw [← leaderboard_filter collation]
      exact List.mem_filter.mpr ⟨hr, by simp⟩
    rw [endpointRow] at hmem
    split at hmem
    · exact absurd hmem (by simp)
    · rename_i hne
      obtain ⟨me, hme, hrow⟩ := List.mem_map.mp hmem
      rw [Option.mem_toList] at hme
      have hname : r.name = me.name := by rw [← hrow]; rfl
      refine ⟨by rw [hme, hname]; rfl, ?_⟩
      rw [← hrow]
      exact statistics_of ((endpointRows_ne_nil hdb _).mp hne) (endpointRows_scored hdb _)

end Documented

/-! ## 6. A small board

Two succeeded items of one endpoint.  A human has overruled the graders of the first; the judge of
the second has failed. -/

def boardCatalog : Catalog where
  taskSets := [0]
  tasks := ⟨[(0, ⟨0, "2 + 2?", "arithmetic", some "4", .exactMatch, none⟩)], by simp⟩
  endpoints := ⟨[(0, ⟨"small", "gpt-4o-mini", "1", none⟩)], by simp⟩

def boardItem (latencyMs : Int) : RunItem :=
  { evalRunId := 0, taskId := 0, modelEndpointId := 0, status := .succeeded,
    latencyMs := some latencyMs, costUsd := some 1000 }

def boardGrade (i : ItemId) (grader : GraderKind) (score : Option Int) : Grade :=
  { runItemId := i, grader, score, passed := none, rationale := "" }

def boardDb : Db where
  runs := ⟨[(0, { taskSetId := 0, status := .completed })], by simp⟩
  items := ⟨[(0, boardItem 50), (1, boardItem 90)], by simp⟩
  grades := [boardGrade 0 .deterministic (some 100), boardGrade 0 .llmJudge (some 900),
    boardGrade 1 .deterministic (some 800), boardGrade 1 .llmJudge none]
  reviews :=
    [{ runItemId := 0, reason := .judgeDisagreement, status := .resolved,
       reviewerLabel := some (.milli 300) }]

theorem boardDb_unique : boardDb.UniqueRows where
  grades i kind := by
    by_cases h0 : i = 0
    · subst h0
      cases kind <;> decide
    · by_cases h1 : i = 1
      · subst h1
        cases kind <;> decide
      · simp [boardDb, boardGrade, Ne.symm h0, Ne.symm h1]
  reviews i := by
    by_cases h0 : i = 0
    · subst h0
      decide
    · simp [boardDb, Ne.symm h0]

/-- The scores are 0.3 and 0.8. -/
theorem leaderboard_computes_small :
    ∃ r ∈ getLeaderboard (fun a b => decide (a ≤ b)) boardCatalog boardDb none (some "arithmetic"),
      r.n = 2 ∧ r.meanScore = some ((11 / 20 : ℚ) : Sql.Numeric) ∧
        r.passRate = some ((1 / 2 : ℚ) : Sql.Numeric) ∧
        r.costPer1k = some ((1 : ℚ) : Sql.Numeric) := by
  obtain ⟨-, hone, hstat⟩ := leaderboard_computes (fun a b => decide (a ≤ b)) boardCatalog
    boardDb_unique none (some "arithmetic")
  have hcount := hone 0
  rw [if_pos (by decide)] at hcount
  obtain ⟨r, hr, hid⟩ := List.countP_pos_iff.mp (Nat.lt_of_lt_of_eq Nat.one_pos hcount.symm)
  have hS := (hstat r hr).2
  rw [beq_iff_eq.mp hid] at hS
  refine ⟨r, hr, hS.n.trans (by decide), hS.meanScore.trans (by decide +kernel),
    hS.passRate.trans (by decide +kernel), ?_⟩
  rw [hS.costPer1k, hS.totalCostUsd]
  decide +kernel

end EvalHarness
