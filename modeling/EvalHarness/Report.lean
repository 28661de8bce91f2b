/-
# The report of a run (`_read_eval_run` in `app/api/v1/eval_runs.py`)

`GET /v1/eval-runs/{id}` reads the run, counts its items by endpoint and status in one query, averages
and sums them by endpoint in a second, looks the endpoints up in a third, and puts the three together
in dictionaries.  Section 1 has this as the code does it, and each statement sees a state of its own.

* `report_partitions`: the detour loses nothing.  Every endpoint of the run is reported once, in the
  order of the names, with the numbers its own items had when they were read.
* `report_totals` is about the runs of the system: the costs of the models add up to the total of the
  run, the total it has when they are summed.  The total that is shown was read before.

Left out: `started_at`, and the conversion of the numerics into floats, field by field.
-/
import EvalHarness.FanOut
import EvalHarness.Ledger
import EvalHarness.Leaderboard
import EvalHarness.Lib.PyDict

namespace EvalHarness

open Lts
open Py (Dict)

/-! ## 1. The handler -/

structure StatusCounts where
  queued : Nat := 0
  running : Nat := 0
  succeeded : Nat := 0
  failed : Nat := 0
  deadLettered : Nat := 0
  deriving DecidableEq, Repr

structure ModelAggregate where
  modelEndpointId : EndpointId
  name : String
  counts : StatusCounts
  meanLatencyMs : Option Sql.Numeric
  totalCostUsd : Sql.Numeric
  deriving DecidableEq

structure EvalRunRead where
  id : RunId
  taskSetId : TaskSetId
  status : EvalRunStatus
  createdAt : Timestamp
  completedAt : Option Timestamp
  totalCostUsd : Sql.Numeric
  totalTokens : Int
  models : List ModelAggregate
  deriving DecidableEq

/-- `SELECT model_endpoint_id, status, count(*) .. GROUP BY model_endpoint_id, status`. -/
def countRows (db : Db) (r : RunId) : List (EndpointId × RunItemStatus × Nat) :=
  (Sql.groupBy (fun x => (x.2.modelEndpointId, x.2.status)) (itemsOfRun db r)).map fun g =>
    (g.1.1, g.1.2, g.2.length)

/-- `avg(latency_ms)`. -/
def meanLatency (items : List (ItemId × RunItem)) : Option Sql.Numeric :=
  Sql.avg (items.map fun x => x.2.latencyMs.map fun ms => ((ms : ℚ) : Sql.Numeric))

/-- `sum(cost_usd)`. -/
def sumCost (items : List (ItemId × RunItem)) : Option Sql.Numeric :=
  Sql.sum (items.map fun x => x.2.costUsd.map MicroUsd.numeric)

/-- `SELECT model_endpoint_id, avg(latency_ms), sum(cost_usd) .. GROUP BY model_endpoint_id`. -/
def aggRows (db : Db) (r : RunId) :
    List (EndpointId × Option Sql.Numeric × Option Sql.Numeric) :=
  (Sql.groupBy (fun x => x.2.modelEndpointId) (itemsOfRun db r)).map fun g =>
    (g.1, meanLatency g.2, sumCost g.2)

/-- What the statements of a request read.  Under `READ COMMITTED` each has a state of its own. -/
structure EvalRunReads where
  run : Db
  counts : Db
  aggregates : Db
  endpoints : Catalog

/-- All of them read one state. -/
def EvalRunReads.snapshot (cat : Catalog) (db : Db) : EvalRunReads := ⟨db, db, db, cat⟩

/-- `model_ids`, a set; `order` is the order in which it is iterated. -/
def modelIds (order : Py.SetOrder EndpointId) (reads : EvalRunReads) (r : RunId) :
    List EndpointId :=
  order.walk
    ((countRows reads.counts r).map Prod.fst ++ (aggRows reads.aggregates r).map Prod.fst).dedup

/-- `endpoints_by_id`. -/
def endpointsById (cat : Catalog) (ids : List EndpointId) : Dict EndpointId ModelEndpoint :=
  if ids = [] then Table.empty
  else Dict.ofRows (cat.endpoints.rows.filter fun endpoint => ids.contains endpoint.1)

/-- `counts_by_model`. -/
def countsByModel (rows : List (EndpointId × RunItemStatus × Nat)) :
    Dict EndpointId (Dict RunItemStatus Nat) :=
  Dict.gather Table.empty (fun d x => Dict.set d x.1 x.2) Table.empty rows

/-- The body of the loop over `model_ids`. -/
def modelAggregate (reads : EvalRunReads) (r : RunId) (ids : List EndpointId) (id : EndpointId) :
    ModelAggregate :=
  let endpoint := (endpointsById reads.endpoints ids).get id
  let perStatus := ((countsByModel (countRows reads.counts r)).get id).getD Table.empty
  let latencyByModel : Dict EndpointId (Option Sql.Numeric) :=
    Dict.ofRows ((aggRows reads.aggregates r).map fun row => (row.1, row.2.1))
  let costByModel : Dict EndpointId (Option Sql.Numeric) :=
    Dict.ofRows ((aggRows reads.aggregates r).map fun row => (row.1, row.2.2))
  { modelEndpointId := id
    name := endpoint.elim "unknown" (·.name)
    counts :=
      { queued := (perStatus.get .queued).getD 0
        running := (perStatus.get .running).getD 0
        succeeded := (perStatus.get .succeeded).getD 0
        failed := (perStatus.get .failed).getD 0
        deadLettered := (perStatus.get .deadLettered).getD 0 }
    meanLatencyMs := (latencyByModel.get id).join
    totalCostUsd := (costByModel.get id).join.getD 0 }

/-- `_read_eval_run`. -/
def readEvalRun (order : Py.SetOrder EndpointId) (reads : EvalRunReads) (r : RunId)
    (run : EvalRun) : EvalRunRead :=
  let ids := modelIds order reads r
  { id := r, taskSetId := run.taskSetId, status := run.status, createdAt := run.createdAt,
    completedAt := run.completedAt, totalCostUsd := MicroUsd.numeric run.totalCostUsd,
    totalTokens := run.totalTokens
    models := (ids.map (modelAggregate reads r ids)).mergeSort fun a b => decide (a.name ≤ b.name) }

/-- `get_eval_run`. -/
def getEvalRun (order : Py.SetOrder EndpointId) (reads : EvalRunReads) (r : RunId) :
    Except HttpError EvalRunRead :=
  match reads.run.runs.get r with
  | none => .error ⟨404, "Eval run not found"⟩
  | some run => .ok (readEvalRun order reads r run)

/-! ## 2. What it is for -/

/-- The items of a run for one endpoint. -/
def itemsFor (db : Db) (r : RunId) (id : EndpointId) : List (ItemId × RunItem) :=
  (itemsOfRun db r).filter fun x => x.2.modelEndpointId == id

/-- The count of one status. -/
def StatusCounts.of (c : StatusCounts) : RunItemStatus → Nat
  | .queued => c.queued
  | .running => c.running
  | .succeeded => c.succeeded
  | .failed => c.failed
  | .deadLettered => c.deadLettered

def StatusCounts.total (c : StatusCounts) : Nat :=
  c.queued + c.running + c.succeeded + c.failed + c.deadLettered

/-- The numbers of a model are those of its own items, as the two queries saw them. -/
structure ModelAggregate.Describes (reads : EvalRunReads) (r : RunId) (m : ModelAggregate) :
    Prop where
  name : ∃ me, reads.endpoints.endpoints.get m.modelEndpointId = some me ∧ m.name = me.name
  counts : ∀ st, m.counts.of st =
    (itemsFor reads.counts r m.modelEndpointId).countP fun x => x.2.status == st
  meanLatencyMs : m.meanLatencyMs = meanLatency (itemsFor reads.aggregates r m.modelEndpointId)
  totalCostUsd : m.totalCostUsd =
    MicroUsd.numeric ((itemsFor reads.aggregates r m.modelEndpointId).map fun x => x.2.cost).sum

/-- The items that are read belong to endpoints that are found. -/
structure EvalRunReads.ForeignKeys (reads : EvalRunReads) : Prop where
  counts : reads.counts.ForeignKeys reads.endpoints
  aggregates : reads.aggregates.ForeignKeys reads.endpoints

theorem EvalRunReads.foreignKeys_snapshot {cat : Catalog} {db : Db} (h : db.ForeignKeys cat) :
    (EvalRunReads.snapshot cat db).ForeignKeys := ⟨h, h⟩

/-! ## 3. The pieces -/

section Pieces

variable {cat : Catalog} {db : Db} {reads : EvalRunReads} {r : RunId} {id : EndpointId}
  {order : Py.SetOrder EndpointId}

/-- The statuses partition the items. -/
theorem StatusCounts.total_of {c : StatusCounts} {items : List (ItemId × RunItem)}
    (h : ∀ st, c.of st = items.countP fun x => x.2.status == st) : c.total = items.length := by
  have hsum : c.total = (items.countP fun x => x.2.status == .queued) +
      (items.countP fun x => x.2.status == .running) +
      (items.countP fun x => x.2.status == .succeeded) +
      (items.countP fun x => x.2.status == .failed) +
      (items.countP fun x => x.2.status == .deadLettered) := by
    simp only [← h]
    rfl
  rw [hsum]
  clear h hsum
  induction items with
  | nil => rfl
  | cons x items ih =>
    simp only [List.countP_cons, List.length_cons]
    cases x.2.status <;> simp <;> omega

theorem mem_itemsFor {x : ItemId × RunItem} :
    x ∈ itemsFor db r id ↔ x ∈ itemsOfRun db r ∧ x.2.modelEndpointId = id := by
  rw [itemsFor, List.mem_filter, beq_iff_eq]

theorem itemsFor_ne_nil : itemsFor db r id ≠ [] ↔
    ∃ x ∈ itemsOfRun db r, x.2.modelEndpointId = id := by
  rw [← List.isEmpty_eq_false_iff, List.isEmpty_eq_false_iff_exists_mem]
  exact exists_congr fun x => mem_itemsFor

theorem mem_modelIds : id ∈ modelIds order reads r ↔
    itemsFor reads.counts r id ≠ [] ∨ itemsFor reads.aggregates r id ≠ [] := by
  have hcount : (countRows reads.counts r).map Prod.fst = ((itemsOfRun reads.counts r).map
      fun x => (x.2.modelEndpointId, x.2.status)).dedup.map Prod.fst := by
    rw [← Sql.keys_groupBy, countRows, List.map_map, List.map_map]
    rfl
  have hagg : (aggRows reads.aggregates r).map Prod.fst =
      ((itemsOfRun reads.aggregates r).map fun x => x.2.modelEndpointId).dedup := by
    rw [← Sql.keys_groupBy, aggRows, List.map_map]
    rfl
  rw [modelIds, (order.perm _).mem_iff, List.mem_dedup, List.mem_append, hcount, hagg,
    itemsFor_ne_nil, itemsFor_ne_nil]
  simp

theorem nodup_modelIds (order : Py.SetOrder EndpointId) (reads : EvalRunReads) (r : RunId) :
    (modelIds order reads r).Nodup :=
  (order.perm _).nodup_iff.mpr (List.nodup_dedup _)

/-- The group of a row of the first query. -/
theorem filter_pair (st : RunItemStatus) :
    (itemsOfRun db r).filter (fun x => decide ((x.2.modelEndpointId, x.2.status) = (id, st))) =
      (itemsFor db r id).filter fun x => x.2.status == st := by
  rw [itemsFor, List.filter_filter]
  refine List.filter_congr fun x _ => ?_
  simp only [Prod.mk.injEq, Bool.decide_and]
  exact Bool.and_comm _ _

theorem mem_countRows {st : RunItemStatus} {n : Nat} :
    (id, st, n) ∈ countRows db r ↔ n ≠ 0 ∧
      n = (itemsFor db r id).countP fun x => x.2.status == st := by
  have hmem : (id, st) ∈ (itemsOfRun db r).map (fun x => (x.2.modelEndpointId, x.2.status)) ↔
      ((itemsFor db r id).filter fun x => x.2.status == st) ≠ [] := by
    rw [← filter_pair, ne_eq, List.filter_eq_nil_iff]
    simp
  rw [List.countP_eq_length_filter, countRows, List.mem_map]
  constructor
  · rintro ⟨⟨k, ys⟩, hg, heq⟩
    obtain ⟨rfl, rfl, rfl⟩ : k.1 = id ∧ k.2 = st ∧ ys.length = n := by simpa using heq
    obtain ⟨hk, rfl⟩ := Sql.mem_groupBy_iff.mp hg
    rw [filter_pair]
    exact ⟨fun hlen => hmem.mp hk (List.length_eq_zero_iff.mp hlen), rfl⟩
  · rintro ⟨hne, rfl⟩
    have hk := hmem.mpr fun hnil => hne (by rw [hnil]; rfl)
    exact ⟨((id, st), _), Sql.mem_groupBy_iff.mpr ⟨hk, rfl⟩, by rw [filter_pair]⟩

theorem nodup_rowsOf_countRows (db : Db) (r : RunId) (id : EndpointId) :
    ((Dict.rowsOf id (countRows db r)).map Prod.fst).Nodup := by
  have hkeys : ((countRows db r).map fun x => (x.1, x.2.1)).Nodup := by
    have hnd := List.nodup_dedup ((itemsOfRun db r).map fun x => (x.2.modelEndpointId, x.2.status))
    rw [← Sql.keys_groupBy] at hnd
    rw [countRows, List.map_map]
    exact hnd
  rw [Dict.rowsOf, List.map_map]
  refine List.Nodup.map_on ?_ ((List.Nodup.of_map _ hkeys).filter _)
  intro x hx y hy hxy
  have hx' := List.mem_filter.mp hx
  have hy' := List.mem_filter.mp hy
  refine List.inj_on_of_nodup_map hkeys hx'.1 hy'.1 ?_
  exact Prod.ext ((beq_iff_eq.mp hx'.2).trans (beq_iff_eq.mp hy'.2).symm) hxy

/-- **The two dictionaries** count the items of an endpoint with a status. -/
theorem get_countsByModel (db : Db) (r : RunId) (id : EndpointId) (st : RunItemStatus) :
    ((((countsByModel (countRows db r)).get id).getD Table.empty).get st).getD 0 =
      (itemsFor db r id).countP fun x => x.2.status == st := by
  have hnd := nodup_rowsOf_countRows db r id
  rw [countsByModel, Dict.getD_gather_set]
  cases hget : (Dict.ofRows (Dict.rowsOf id (countRows db r))).get st with
  | some n =>
    rw [Dict.get_ofRows_iff hnd, Dict.mem_rowsOf, mem_countRows] at hget
    exact hget.2
  | none =>
    rw [Dict.get_ofRows_eq_none hnd] at hget
    by_contra hne
    have hrow := mem_countRows.mpr ⟨Ne.symm hne, rfl⟩
    exact hget (List.mem_map.mpr ⟨_, Dict.mem_rowsOf.mpr hrow, rfl⟩)

theorem nodup_aggRows (db : Db) (r : RunId) : ((aggRows db r).map Prod.fst).Nodup := by
  have hkeys := Sql.keys_groupBy (fun x : ItemId × RunItem => x.2.modelEndpointId) (itemsOfRun db r)
  rw [aggRows, List.map_map]
  exact hkeys ▸ List.nodup_dedup _

/-- A column of the second query, in the dictionary the handler makes of it. -/
theorem get_ofAggRows (db : Db) (r : RunId) (id : EndpointId)
    (f : Option Sql.Numeric × Option Sql.Numeric → Option Sql.Numeric) (hnone : f (none, none) = none) :
    ((Dict.ofRows ((aggRows db r).map fun row => (row.1, f row.2))).get id).join =
      f (meanLatency (itemsFor db r id), sumCost (itemsFor db r id)) := by
  have hnd : (((aggRows db r).map fun row => (row.1, f row.2)).map Prod.fst).Nodup := by
    rw [List.map_map]
    exact nodup_aggRows db r
  have hkeys : ((aggRows db r).map fun row => (row.1, f row.2)).map Prod.fst =
      ((itemsOfRun db r).map fun x => x.2.modelEndpointId).dedup := by
    rw [← Sql.keys_groupBy, aggRows, List.map_map, List.map_map]
    rfl
  by_cases hid : itemsFor db r id = []
  · have hget : (Dict.ofRows ((aggRows db r).map fun row => (row.1, f row.2))).get id = none := by
      rw [Dict.get_ofRows_eq_none hnd, hkeys, List.mem_dedup]
      rintro hmem
      obtain ⟨x, hx, heq⟩ := List.mem_map.mp hmem
      exact itemsFor_ne_nil.mpr ⟨x, hx, heq⟩ hid
    rw [hget, hid]
    exact hnone.symm
  · obtain ⟨x, hx, heq⟩ := itemsFor_ne_nil.mp hid
    have hget : (Dict.ofRows ((aggRows db r).map fun row => (row.1, f row.2))).get id =
        some (f (meanLatency (itemsFor db r id), sumCost (itemsFor db r id))) := by
      rw [Dict.get_ofRows_iff hnd, aggRows, List.map_map]
      exact List.mem_map.mpr ⟨(id, itemsFor db r id),
        Sql.mem_groupBy_iff.mpr ⟨List.mem_map.mpr ⟨x, hx, heq⟩, rfl⟩, rfl⟩
    rw [hget, Option.join_some]

theorem nodup_endpoint_rows (cat : Catalog) (p : EndpointId × ModelEndpoint → Bool) :
    ((cat.endpoints.rows.filter p).map Prod.fst).Nodup :=
  cat.endpoints.nodup.sublist (List.filter_sublist.map _)

/-- The third query finds the endpoints it is asked for. -/
theorem get_endpointsById {ids : List EndpointId} {me : ModelEndpoint} (hid : id ∈ ids)
    (hme : cat.endpoints.get id = some me) : (endpointsById cat ids).get id = some me := by
  rw [endpointsById, if_neg (List.ne_nil_of_mem hid), Dict.get_ofRows_iff (nodup_endpoint_rows _ _)]
  exact List.mem_filter.mpr ⟨(Table.mem_rows_iff _).mpr hme, by simpa using hid⟩

theorem MicroUsd.numeric_zero : MicroUsd.numeric 0 = 0 := by
  simp [MicroUsd.numeric]

theorem MicroUsd.numeric_add (a b : MicroUsd) :
    MicroUsd.numeric (a + b) = MicroUsd.numeric a + MicroUsd.numeric b := by
  have hq : (((a + b : Int) : ℚ) / 1000000) = (a : ℚ) / 1000000 + (b : ℚ) / 1000000 := by
    push_cast
    ring
  exact congrArg ((↑) : ℚ → Sql.Numeric) hq

theorem MicroUsd.numeric_sum (xs : List MicroUsd) :
    MicroUsd.numeric xs.sum = (xs.map MicroUsd.numeric).sum := by
  induction xs with
  | nil => exact MicroUsd.numeric_zero
  | cons x xs ih => rw [List.sum_cons, MicroUsd.numeric_add, ih, List.map_cons, List.sum_cons]

/-- `sum(cost_usd) or 0` is the cost of the items. -/
theorem sumCost_getD (items : List (ItemId × RunItem)) :
    (sumCost items).getD 0 = MicroUsd.numeric (items.map fun x => x.2.cost).sum := by
  have hsum : (sumCost items).getD 0 =
      (items.map fun x => x.2.costUsd.map MicroUsd.numeric).reduceOption.sum := by
    rw [sumCost, Sql.sum]
    split
    · rename_i hnil
      rw [hnil]
      rfl
    · rfl
  rw [hsum]
  clear hsum
  induction items with
  | nil => exact MicroUsd.numeric_zero.symm
  | cons x items ih =>
    rw [List.map_cons, List.map_cons, List.sum_cons, MicroUsd.numeric_add, ← ih]
    cases hc : x.2.costUsd with
    | none => simp [RunItem.cost, hc, MicroUsd.numeric_zero]
    | some c => simp [RunItem.cost, hc]

/-- An endpoint that is reported has items, and so it is found. -/
theorem exists_endpoint (hfk : reads.ForeignKeys) (hid : id ∈ modelIds order reads r) :
    ∃ me, reads.endpoints.endpoints.get id = some me := by
  have hfound : ∀ db : Db, db.ForeignKeys reads.endpoints → itemsFor db r id ≠ [] →
      ∃ me, reads.endpoints.endpoints.get id = some me := by
    intro db hdb hne
    obtain ⟨x, hx, heq⟩ := itemsFor_ne_nil.mp hne
    rw [← heq]
    exact hdb.endpoint x.1 x.2 ((Table.mem_rows_iff _).mp (List.mem_of_mem_filter hx))
  exact (mem_modelIds.mp hid).elim (hfound _ hfk.counts) (hfound _ hfk.aggregates)

/-- **The body of the loop**: what is reported for an endpoint is about its items. -/
theorem modelAggregate_describes (hfk : reads.ForeignKeys) (hid : id ∈ modelIds order reads r) :
    (modelAggregate reads r (modelIds order reads r) id).Describes reads r where
  name := by
    obtain ⟨me, hme⟩ := exists_endpoint hfk hid
    exact ⟨me, hme, by simp [modelAggregate, get_endpointsById hid hme]⟩
  counts st := by
    have hget := get_countsByModel reads.counts r id st
    rw [show (modelAggregate reads r (modelIds order reads r) id).modelEndpointId = id from rfl,
      ← hget]
    cases st <;> rfl
  meanLatencyMs := get_ofAggRows reads.aggregates r id Prod.fst rfl
  totalCostUsd := by
    have hget := get_ofAggRows reads.aggregates r id Prod.snd rfl
    rw [modelAggregate]
    simp only [hget]
    exact sumCost_getD _

/-- An endpoint has one description. -/
theorem ModelAggregate.Describes.eq {m m' : ModelAggregate} (h : m.Describes reads r)
    (h' : m'.Describes reads r) (hid : m.modelEndpointId = m'.modelEndpointId) : m = m' := by
  obtain ⟨id, name, ⟨q, ru, su, fa, de⟩, latency, cost⟩ := m
  obtain ⟨id', name', ⟨q', ru', su', fa', de'⟩, latency', cost'⟩ := m'
  obtain rfl : id = id' := hid
  obtain ⟨me, hme, hname⟩ := h.name
  obtain ⟨me', hme', hname'⟩ := h'.name
  obtain rfl := Option.some.inj (hme.symm.trans hme')
  have hcounts : ∀ st, StatusCounts.of ⟨q, ru, su, fa, de⟩ st =
      StatusCounts.of ⟨q', ru', su', fa', de'⟩ st := fun st => (h.counts st).trans (h'.counts st).symm
  obtain rfl : q = q' := hcounts .queued
  obtain rfl : ru = ru' := hcounts .running
  obtain rfl : su = su' := hcounts .succeeded
  obtain rfl : fa = fa' := hcounts .failed
  obtain rfl : de = de' := hcounts .deadLettered
  obtain rfl : name = name' := hname.trans hname'.symm
  obtain rfl : latency = latency' := h.meanLatencyMs.trans h'.meanLatencyMs.symm
  obtain rfl : cost = cost' := h.totalCostUsd.trans h'.totalCostUsd.symm
  rfl

end Pieces

/-! ## 4. The report -/

/-- A report says of each endpoint of the run what its items say. -/
structure EvalRunRead.Partitions (reads : EvalRunReads) (r : RunId) (report : EvalRunRead) :
    Prop where
  once : (report.models.map (·.modelEndpointId)).Nodup
  all : ∀ id, id ∈ report.models.map (·.modelEndpointId) ↔
    itemsFor reads.counts r id ≠ [] ∨ itemsFor reads.aggregates r id ≠ []
  sorted : report.models.Pairwise fun m m' => m.name ≤ m'.name
  models : ∀ m ∈ report.models, m.Describes reads r ∧
    m.counts.total = (itemsFor reads.counts r m.modelEndpointId).length
  total : (report.models.map fun m => m.counts.total).sum = (itemsOfRun reads.counts r).length

section Reports

variable {reads : EvalRunReads} {r : RunId} {run : EvalRun} {order : Py.SetOrder EndpointId}

theorem models_perm (order : Py.SetOrder EndpointId) (reads : EvalRunReads) (r : RunId)
    (run : EvalRun) : (readEvalRun order reads r run).models.Perm
    ((modelIds order reads r).map (modelAggregate reads r (modelIds order reads r))) :=
  List.mergeSort_perm _ _

theorem ids_perm (order : Py.SetOrder EndpointId) (reads : EvalRunReads) (r : RunId)
    (run : EvalRun) : ((readEvalRun order reads r run).models.map (·.modelEndpointId)).Perm
      (modelIds order reads r) := by
  have h := (models_perm order reads r run).map (·.modelEndpointId)
  rwa [List.map_map, show ((·.modelEndpointId) ∘ modelAggregate reads r (modelIds order reads r)) =
    id from rfl, List.map_id] at h

theorem describes_of_mem (hfk : reads.ForeignKeys) {m : ModelAggregate}
    (hm : m ∈ (readEvalRun order reads r run).models) : m.Describes reads r := by
  obtain ⟨id, hid, rfl⟩ := List.mem_map.mp ((models_perm order reads r run).mem_iff.mp hm)
  exact modelAggregate_describes hfk hid

/-- A sum over the models of sums over their items is the sum over all items, in a state whose
endpoints are all reported. -/
theorem sum_models {M : Type} [AddCommMonoid M] (db : Db) (f : ModelAggregate → M)
    (g : ItemId × RunItem → M)
    (hall : ∀ id, itemsFor db r id ≠ [] → id ∈ modelIds order reads r)
    (h : ∀ m ∈ (readEvalRun order reads r run).models,
      f m = ((itemsFor db r m.modelEndpointId).map g).sum) :
    ((readEvalRun order reads r run).models.map f).sum = ((itemsOfRun db r).map g).sum := by
  rw [List.map_congr_left h, ← Sql.sum_filter_keys (fun x => x.2.modelEndpointId) g
    (nodup_modelIds order reads r) fun x hx =>
      hall _ (itemsFor_ne_nil.mpr ⟨x, hx, rfl⟩)]
  have hids := (ids_perm order reads r run).map fun id => ((itemsFor db r id).map g).sum
  rw [List.map_map] at hids
  exact hids.sum_eq

theorem readEvalRun_partitions (order : Py.SetOrder EndpointId) (hfk : reads.ForeignKeys)
    (r : RunId) (run : EvalRun) : (readEvalRun order reads r run).Partitions reads r where
  once := (ids_perm order reads r run).nodup_iff.mpr (nodup_modelIds order reads r)
  all id := (ids_perm order reads r run).mem_iff.trans mem_modelIds
  sorted := by
    have h := List.pairwise_mergeSort (α := ModelAggregate)
      (fun a b c (hab : decide (a.name ≤ b.name)) (hbc : decide (b.name ≤ c.name)) => by
        simp only [decide_eq_true_eq] at hab hbc ⊢
        exact String.le_trans hab hbc)
      (fun a b => by
        simp only [Bool.or_eq_true, decide_eq_true_eq]
        exact String.le_total _ _)
      ((modelIds order reads r).map (modelAggregate reads r (modelIds order reads r)))
    exact h.imp fun hab => by simpa using hab
  models m hm := by
    have hdesc := describes_of_mem hfk hm
    exact ⟨hdesc, StatusCounts.total_of hdesc.counts⟩
  total := by
    rw [sum_models reads.counts _ (fun _ => 1) (fun id hid => mem_modelIds.mpr (.inl hid)) fun m hm => by
      rw [StatusCounts.total_of (describes_of_mem hfk hm).counts]
      simp]
    simp

/-- Two orders of iteration give the same models. -/
theorem models_perm_models (hfk : reads.ForeignKeys) (order order' : Py.SetOrder EndpointId)
    (r : RunId) (run : EvalRun) :
    (readEvalRun order' reads r run).models.Perm (readEvalRun order reads r run).models := by
  have hnd : ∀ o : Py.SetOrder EndpointId, (readEvalRun o reads r run).models.Nodup :=
    fun o => (readEvalRun_partitions o hfk r run).once.of_map _
  have hsub : ∀ o o' : Py.SetOrder EndpointId, ∀ m ∈ (readEvalRun o reads r run).models,
      m ∈ (readEvalRun o' reads r run).models := by
    intro o o' m hm
    have hid := (readEvalRun_partitions o hfk r run).all m.modelEndpointId
    have hid' := (readEvalRun_partitions o' hfk r run).all m.modelEndpointId
    obtain ⟨m', hm', heq⟩ := List.mem_map.mp (hid'.mpr (hid.mp (List.mem_map_of_mem hm)))
    rwa [(describes_of_mem hfk hm).eq (describes_of_mem hfk hm') heq.symm]
  exact (List.perm_ext_iff_of_nodup (hnd _) (hnd _)).mpr fun m => ⟨hsub _ _ m, hsub _ _ m⟩

/-- Names decide the order when they are distinct. -/
theorem models_eq (hfk : reads.ForeignKeys) (order' : Py.SetOrder EndpointId)
    (hnames : ((readEvalRun order reads r run).models.map (·.name)).Nodup) :
    readEvalRun order' reads r run = readEvalRun order reads r run := by
  have hperm := models_perm_models hfk order order' r run
  have hmodels : (readEvalRun order' reads r run).models =
      (readEvalRun order reads r run).models := by
    refine hperm.eq_of_pairwise (fun m m' hm hm' hle hle' => ?_)
      (readEvalRun_partitions order' hfk r run).sorted (readEvalRun_partitions order hfk r run).sorted
    exact List.inj_on_of_nodup_map hnames (hperm.mem_iff.mp hm) hm' (String.le_antisymm hle hle')
  simp only [readEvalRun] at hmodels ⊢
  rw [hmodels]

theorem getEvalRun_of_get (order : Py.SetOrder EndpointId)
    (hrun : reads.run.runs.get r = some run) :
    getEvalRun order reads r = .ok (readEvalRun order reads r run) := by
  rw [getEvalRun, hrun]

theorem getEvalRun_ok {report : EvalRunRead} (h : getEvalRun order reads r = .ok report) :
    ∃ run, reads.run.runs.get r = some run ∧ report = readEvalRun order reads r run := by
  rw [getEvalRun] at h
  split at h
  · cases h
  · rename_i run hrun
    exact ⟨run, hrun, (Except.ok.inj h).symm⟩

/-- **The report partitions the run.**  Whatever states the statements read, every endpoint the run
has items for is reported once, by name, with the counts, the latency and the cost of its own items;
the counts of all models are the items of the run.  The order in which the set of ids is iterated
shows only between endpoints of one name. -/
theorem report_partitions (order : Py.SetOrder EndpointId) (hfk : reads.ForeignKeys)
    (hrun : reads.run.runs.get r = some run) :
    ∃ report, getEvalRun order reads r = .ok report ∧ report.status = run.status ∧
      report.Partitions reads r ∧
      ∀ order', (report.models.map (·.name)).Nodup → getEvalRun order' reads r = .ok report := by
  refine ⟨readEvalRun order reads r run, getEvalRun_of_get order hrun, rfl,
    readEvalRun_partitions order hfk r run, fun order' hnames => ?_⟩
  rw [getEvalRun_of_get order' hrun]
  exact congrArg Except.ok (models_eq hfk order' hnames)

/-- Two items of one endpoint, the first of them answered. -/
theorem report_partitions_small : ∃ (db : Db) (report : EvalRunRead),
    getEvalRun ⟨id, fun _ => .refl _⟩ (.snapshot (smallConfig 2 1 5000000).catalog db) 0 =
        .ok report ∧
      report.Partitions (.snapshot (smallConfig 2 1 5000000).catalog db) 0 ∧
      (itemsOfRun db 0).length = 2 ∧
      (itemsFor db 0 0).countP (fun x => x.2.status == .succeeded) = 1 := by
  obtain ⟨tr, w, hrun, -, htest⟩ := exists_run_of_play (step (smallConfig 2 1 5000000))
    (World.init : World Unit Unit) (fun _ _ => true)
    (launch () 2 ++ [.deliver () 0] ++ execs () answers 11)
    (fun _ w => (w.store.db.runs.get 0).isSome && (itemsOfRun w.store.db 0).length == 2 &&
      (itemsFor w.store.db 0 0).countP (fun x => x.2.status == .succeeded) == 1)
    (by decide)
  simp only [Bool.and_eq_true, beq_iff_eq] at htest
  obtain ⟨⟨hsome, hlen⟩, hcount⟩ := htest
  obtain ⟨run, hr⟩ := Option.isSome_iff_exists.mp hsome
  obtain ⟨report, hok, -, hparts, -⟩ :=
    report_partitions ⟨id, fun _ => .refl _⟩
      (EvalRunReads.foreignKeys_snapshot (foreignKeys_of_run hrun)) hr
  exact ⟨w.store.db, report, hok, hparts, hlen, hcount⟩

end Reports

/-! ## 5. Reports of the system -/

section Runs

variable {σ η : Type} [DecidableEq σ] [DecidableEq η] {cfg : Config} {w : World σ η}
  {order : Py.SetOrder EndpointId}

/-- A sum over a run's items, as the ledger and as the report take it. -/
theorem sumOver_eq (db : Db) (r : RunId) (f : RunItem → Int) :
    sumOver db r f = ((itemsOfRun db r).map fun x => f x.2).sum := by
  rw [sumOver, Table.sumBy, itemsOfRun]
  induction db.items.rows with
  | nil => rfl
  | cons x rows ih =>
    rw [List.map_cons, List.sum_cons, ih]
    by_cases hr : x.2.evalRunId = r <;> simp [hr]

/-- The run is still there. -/
theorem exists_run_of_run {w' : World σ η} {tr : List (World σ η × Label σ η)}
    (h : Run (step cfg) w tr w') {r : RunId} {run : EvalRun}
    (hr : w.store.db.runs.get r = some run) : ∃ run', w'.store.db.runs.get r = some run' := by
  have hall : Along (fun _ _ => True) tr := fun _ _ => trivial
  refine h.invariant (I := fun u => ∃ run', u.store.db.runs.get r = some run') ?_ hall ⟨run, hr⟩
  rintro u l u' ⟨run₁, hr₁⟩ - hs
  obtain ⟨run₂, hr₂, -⟩ := step_run hs hr₁
  exact ⟨run₂, hr₂⟩

theorem MicroUsd.numeric_inj {a b : MicroUsd} : MicroUsd.numeric a = MicroUsd.numeric b ↔ a = b := by
  refine ⟨fun h => ?_, fun h => h ▸ rfl⟩
  have hq : (a : ℚ) / 1000000 = (b : ℚ) / 1000000 := WithTop.coe_injective h
  have hne : (1000000 : ℚ) ≠ 0 := by norm_num
  exact_mod_cast (div_left_inj' hne).mp hq

/-- The items of a run cost what its total says, in every state. -/
theorem sum_costs {tr : List (World σ η × Label σ η)} (h : Run (step cfg) World.init tr w)
    (hok : Follows Alone tr) {r : RunId} {run : EvalRun}
    (hr : w.store.db.runs.get r = some run) :
    ((itemsOfRun w.store.db r).map fun x => MicroUsd.numeric x.2.cost).sum =
      MicroUsd.numeric run.totalCostUsd := by
  rw [((ledgerInv_of_run h hok).ledger r run hr).1, sumOver_eq, MicroUsd.numeric_sum, List.map_map]
  rfl

/-- **The report adds up.**  However executions, requests, redeliveries and deaths interleave, also
between the statements of the request, as long as executions of one item do not overlap: the costs
of the models of a report are together the total its run has when they are summed.  The total it
shows is the one the run had when it was read, so the two agree exactly if it did not change. -/
theorem report_totals {w₁ w₂ : World σ η} {tr tr₁ tr₂ : List (World σ η × Label σ η)}
    (h : Run (step cfg) World.init tr w) (h₁ : Run (step cfg) w tr₁ w₁)
    (h₂ : Run (step cfg) w₁ tr₂ w₂) (hok : Follows Alone (tr ++ tr₁ ++ tr₂)) {r : RunId}
    {report : EvalRunRead}
    (hr : getEvalRun order ⟨w.store.db, w₁.store.db, w₂.store.db, cfg.catalog⟩ r = .ok report) :
    ∃ run run₂, w.store.db.runs.get r = some run ∧ w₂.store.db.runs.get r = some run₂ ∧
      report.totalCostUsd = MicroUsd.numeric run.totalCostUsd ∧
      (report.models.map (·.totalCostUsd)).sum = MicroUsd.numeric run₂.totalCostUsd ∧
      ((report.models.map (·.totalCostUsd)).sum = report.totalCostUsd ↔
        run₂.totalCostUsd = run.totalCostUsd) := by
  have hrun₂ := (h.append h₁).append h₂
  have hfk : (⟨w.store.db, w₁.store.db, w₂.store.db, cfg.catalog⟩ : EvalRunReads).ForeignKeys :=
    ⟨foreignKeys_of_run (h.append h₁), foreignKeys_of_run hrun₂⟩
  obtain ⟨run, hrun, rfl⟩ := getEvalRun_ok hr
  obtain ⟨run₂, hr₂⟩ := exists_run_of_run (h₁.append h₂) hrun
  have hsum : ((readEvalRun order ⟨w.store.db, w₁.store.db, w₂.store.db, cfg.catalog⟩ r
      run).models.map (·.totalCostUsd)).sum = MicroUsd.numeric run₂.totalCostUsd := by
    rw [← sum_costs hrun₂ hok hr₂]
    refine sum_models w₂.store.db _ _ (fun id hid => mem_modelIds.mpr (.inr hid)) fun m hm => ?_
    rw [(describes_of_mem hfk hm).totalCostUsd, MicroUsd.numeric_sum, List.map_map]
    rfl
  refine ⟨run, run₂, hrun, hr₂, rfl, hsum, ?_⟩
  rw [hsum]
  exact MicroUsd.numeric_inj

/-- The item is finalised between the statements: the report shows no total, and costs. -/
theorem report_totals_small : ∃ (w w₂ : World Nat Nat) (report : EvalRunRead),
    getEvalRun ⟨id, fun _ => .refl _⟩
        ⟨w.store.db, w.store.db, w₂.store.db, (smallConfig 1 1 5000000).catalog⟩ 0 = .ok report ∧
      report.totalCostUsd = MicroUsd.numeric 0 ∧
      (report.models.map (·.totalCostUsd)).sum = MicroUsd.numeric 1250000 := by
  obtain ⟨tr, w₂, hrun, -, htest⟩ := exists_run_of_play (step (smallConfig 1 1 5000000))
    (World.init : World Nat Nat) (fun _ _ => true)
    (launch 0 1 ++ [.deliver 0 0] ++ execs 0 answers 6)
    (fun tr w => (w.store.db.runs.get 0).any (fun run => run.totalCostUsd == 1250000) &&
      followsFrom (fun a w l => decide (Alone a w l)) [] tr &&
      tr.any fun p => (p.1.store.db.runs.get 0).any fun run => run.totalCostUsd == 0)
    (by decide)
  simp only [Bool.and_eq_true, Option.any_eq_true, beq_iff_eq, List.any_eq_true] at htest
  obtain ⟨⟨⟨run₂, hr₂, hcost₂⟩, hfree⟩, ⟨w, l⟩, hmem, run, hr, hcost⟩ := htest
  obtain ⟨tr₀, tr₁, rfl⟩ := List.append_of_mem hmem
  obtain ⟨h, u, hs, hrest⟩ := hrun.at
  have hok : Follows Alone (tr₀ ++ [] ++ (w, l) :: tr₁) := by
    simpa using follows_of_followsFrom hfree
  let reads : EvalRunReads :=
    ⟨w.store.db, w.store.db, w₂.store.db, (smallConfig 1 1 5000000).catalog⟩
  have hrun₀ : reads.run.runs.get 0 = some run := hr
  have hread := getEvalRun_of_get ⟨id, fun _ => .refl _⟩ hrun₀
  obtain ⟨run', run₂', hr', hr₂', hshown, hsum, -⟩ :=
    report_totals h .nil (.cons hs hrest) hok hread
  obtain rfl := Option.some.inj (hr.symm.trans hr')
  obtain rfl := Option.some.inj (hr₂.symm.trans hr₂')
  exact ⟨w, w₂, _, hread, hcost ▸ hshown, hcost₂ ▸ hsum⟩

end Runs

end EvalHarness
