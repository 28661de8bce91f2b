/-
# Fan-out is the product (`create_eval_run`)

A creation that names a task set or an endpoint that does not exist is refused before anything is
written.  Any other adds one run, with one queued item for every task of the set and every endpoint
listed, however often it is listed (`FannedOut`), and publishes one message for each item behind its
commit.

The publications are steps of their own, with steps of anybody else between them.  `fan_out` says
that the request can take them all and, in whatever company it does, publishes each item once.
-/
import EvalHarness.Broker
import EvalHarness.Views
import Mathlib.Data.List.ProdSigma

namespace EvalHarness

open Lts

variable {σ η : Type} [DecidableEq σ] [DecidableEq η] {cfg : Config} {w w' : World σ η}

/-! ## 1. The pairs -/

/-- The tasks of a set. -/
def tasksOf (cat : Catalog) (taskSetId : TaskSetId) : List TaskId :=
  (cat.tasks.rows.filter fun t => t.2.taskSetId == taskSetId).map Prod.fst

theorem mem_tasksOf {cat : Catalog} {taskSetId : TaskSetId} {t : TaskId} :
    t ∈ tasksOf cat taskSetId ↔
      ∃ task, cat.tasks.get t = some task ∧ task.taskSetId = taskSetId := by
  simp [tasksOf, Table.mem_rows_iff]

theorem nodup_tasksOf (cat : Catalog) (taskSetId : TaskSetId) : (tasksOf cat taskSetId).Nodup :=
  cat.tasks.nodup.sublist (List.filter_sublist.map _)

section Pairs

variable {cat : Catalog} {payload : EvalRunCreate}

/-- Everything a request names exists. -/
def EvalRunCreate.Known (cat : Catalog) (payload : EvalRunCreate) : Prop :=
  payload.taskSetId ∈ cat.taskSets ∧ ∀ e ∈ payload.modelEndpointIds, e ∈ cat.endpoints.keys

/-- The endpoints the request's query finds. -/
def endpointsOf (cat : Catalog) (payload : EvalRunCreate) : List EndpointId :=
  cat.endpoints.keys.filter fun e => payload.modelEndpointIds.eraseDups.contains e

theorem mem_endpointsOf {e : EndpointId} :
    e ∈ endpointsOf cat payload ↔ e ∈ cat.endpoints.keys ∧ e ∈ payload.modelEndpointIds := by
  simp [endpointsOf]

theorem nodup_endpointsOf (cat : Catalog) (payload : EvalRunCreate) :
    (endpointsOf cat payload).Nodup :=
  cat.endpoints.nodup.sublist List.filter_sublist

/-- Every listed endpoint is found once. -/
theorem length_endpointsOf (h : payload.Known cat) :
    (endpointsOf cat payload).length = payload.modelEndpointIds.toFinset.card := by
  rw [← List.toFinset_card_of_nodup (nodup_endpointsOf cat payload)]
  congr 1
  ext e
  simp only [List.mem_toFinset, mem_endpointsOf]
  exact ⟨And.right, fun he => ⟨h.2 e he, he⟩⟩

/-- What the check for unknown ids finds. -/
theorem missing_eq_nil_iff :
    (payload.modelEndpointIds.eraseDups.filter fun e => !(endpointsOf cat payload).contains e) = []
      ↔ ∀ e ∈ payload.modelEndpointIds, e ∈ cat.endpoints.keys := by
  rw [List.filter_eq_nil_iff]
  simp only [List.mem_eraseDups, List.contains_eq_mem, mem_endpointsOf, Bool.not_eq_true',
    decide_eq_false_iff_not, not_not]
  exact forall₂_congr fun e he => and_iff_left he

theorem fanOut_of_known (h : payload.Known cat) :
    fanOut cat payload = .ok (tasksOf cat payload.taskSetId ×ˢ endpointsOf cat payload) := by
  have hmissing := missing_eq_nil_iff.mpr h.2
  unfold endpointsOf at hmissing
  unfold fanOut
  simp only [h.1, not_true_eq_false, if_false, hmissing, ne_eq]
  simp [tasksOf, endpointsOf, SProd.sprod, List.product, List.flatMap_map]

theorem fanOut_of_not_known (h : ¬ payload.Known cat) : ∃ e, fanOut cat payload = .error e := by
  unfold fanOut
  by_cases hset : payload.taskSetId ∈ cat.taskSets
  · have hmissing := mt missing_eq_nil_iff.mp fun hall => h ⟨hset, hall⟩
    unfold endpointsOf at hmissing
    simp only [hset, not_true_eq_false, if_false, hmissing, ne_eq, not_false_eq_true, if_true]
    exact ⟨_, rfl⟩
  · simp only [hset, not_false_eq_true, if_true]
    exact ⟨_, rfl⟩

end Pairs

/-! ## 2. The rows -/

/-- The items of a run. -/
def itemsOfRun (db : Db) (r : RunId) : List (ItemId × RunItem) :=
  db.items.rows.filter fun x => x.2.evalRunId == r

def RunItem.pair (row : RunItem) : TaskId × EndpointId := (row.taskId, row.modelEndpointId)

/-- Ids that are in use nowhere, as `uuid4` gives them. -/
structure FreshIds (db : Db) (r : RunId) (itemIds : List ItemId) : Prop where
  run : db.runs.get r = none
  items : ∀ i ∈ itemIds, db.items.get i = none
  nodup : itemIds.Nodup

/-- The creation of run `r` leads from `db` to `db'`. -/
structure FannedOut (cat : Catalog) (payload : EvalRunCreate) (r : RunId) (itemIds : List ItemId)
    (db db' : Db) : Prop where
  run : ∃ run, db'.runs.rows = db.runs.rows ++ [(r, run)] ∧ run.taskSetId = payload.taskSetId ∧
    run.status = if tasksOf cat payload.taskSetId = [] then .completed else .running
  /-- The other items are what they were. -/
  items : db'.items.rows = db.items.rows ++ itemsOfRun db' r
  ids : (itemsOfRun db' r).map Prod.fst = itemIds
  queued : ∀ x ∈ itemsOfRun db' r, x.2.status = .queued
  /-- No pair twice. -/
  nodup : ((itemsOfRun db' r).map fun x => x.2.pair).Nodup
  pairs : ∀ t e, (t, e) ∈ (itemsOfRun db' r).map (fun x => x.2.pair) ↔
    (∃ task, cat.tasks.get t = some task ∧ task.taskSetId = payload.taskSetId) ∧
      e ∈ payload.modelEndpointIds
  count : (itemsOfRun db' r).length =
    (tasksOf cat payload.taskSetId).length * payload.modelEndpointIds.toFinset.card
  grades : db'.grades = db.grades
  reviews : db'.reviews = db.reviews

section Rows

variable {cat : Catalog} {payload : EvalRunCreate} {r : RunId} {itemIds : List ItemId} {db : Db}

/-- The row `create_eval_run` adds for a pair. -/
def newItem (r : RunId) (p : TaskId × EndpointId) : RunItem :=
  { evalRunId := r, taskId := p.1, modelEndpointId := p.2 }

/-- A list of rows under given ids has the ids and the rows. -/
theorem map_zip_newItem {pairs : List (TaskId × EndpointId)}
    (hlen : itemIds.length = pairs.length) :
    (itemIds.zip (pairs.map (newItem r))).map Prod.fst = itemIds ∧
      (itemIds.zip (pairs.map (newItem r))).map (fun x => x.2.pair) = pairs := by
  constructor
  · exact List.map_fst_zip (by simp [hlen])
  · have hsnd : (itemIds.zip (pairs.map (newItem r))).map Prod.snd = pairs.map (newItem r) :=
      List.map_snd_zip (by simp [hlen])
    calc _ = ((itemIds.zip (pairs.map (newItem r))).map Prod.snd).map RunItem.pair := by
          rw [List.map_map]
          rfl
      _ = pairs := by
          rw [hsnd, List.map_map]
          exact List.map_id pairs

/-- No item belongs to a run that does not exist. -/
theorem itemsOfRun_eq_nil (hfk : db.ForeignKeys cat) (hr : db.runs.get r = none) :
    itemsOfRun db r = [] := by
  refine List.filter_eq_nil_iff.mpr fun x hx hxr => ?_
  obtain ⟨run, hrun⟩ := hfk.run x.1 x.2 ((Table.mem_rows_iff _).mp hx)
  rw [beq_iff_eq.mp hxr, hr] at hrun
  cases hrun

/-- **The transaction adds the product.** -/
theorem insertRun_of_fresh (now : Timestamp) (hfk : db.ForeignKeys cat) (hknown : payload.Known cat)
    (hfresh : FreshIds db r itemIds)
    (hlen : itemIds.length =
      (tasksOf cat payload.taskSetId).length * payload.modelEndpointIds.toFinset.card) :
    ∃ db', insertRun db payload (tasksOf cat payload.taskSetId ×ˢ endpointsOf cat payload) r itemIds
      now = some db' ∧ FannedOut cat payload r itemIds db db' := by
  let pairs := tasksOf cat payload.taskSetId ×ˢ endpointsOf cat payload
  let rows := itemIds.zip (pairs.map (newItem r))
  have hcount : pairs.length =
      (tasksOf cat payload.taskSetId).length * payload.modelEndpointIds.toFinset.card := by
    rw [List.length_product, length_endpointsOf hknown]
  have hpairs : itemIds.length = pairs.length := hlen.trans hcount.symm
  obtain ⟨hids, hpair⟩ : rows.map Prod.fst = itemIds ∧ rows.map (fun x => x.2.pair) = pairs :=
    map_zip_newItem hpairs
  have hempty : pairs = [] ↔ tasksOf cat payload.taskSetId = [] := by
    have hpos : payload.modelEndpointIds.toFinset.card ≠ 0 := by
      simpa using payload.nonempty
    rw [← List.length_eq_zero_iff, ← List.length_eq_zero_iff, hcount]
    simp [hpos]
  have hnew : ∀ x ∈ rows, x.2.evalRunId = r ∧ x.2.status = .queued := by
    intro x hx
    obtain ⟨p, -, hp⟩ := List.mem_map.mp (List.of_mem_zip hx).2
    rw [← hp]
    exact ⟨rfl, rfl⟩
  -- the primary keys let the rows in
  let run : EvalRun := if pairs = [] then
      { taskSetId := payload.taskSetId, status := .completed, completedAt := some now,
        createdAt := now }
    else { taskSetId := payload.taskSetId, status := .running, createdAt := now }
  obtain ⟨runs, hruns⟩ : ∃ runs, db.runs.insertAll [(r, run)] = some runs :=
    Table.exists_insertAll (by simp) (by simpa using hfresh.run)
  obtain ⟨items, hitems⟩ : ∃ items, db.items.insertAll rows = some items :=
    Table.exists_insertAll (by rw [hids]; exact hfresh.nodup) (by rw [hids]; exact hfresh.items)
  have hinsert : insertRun db payload pairs r itemIds now = some { db with runs, items } := by
    unfold insertRun
    rw [if_neg (not_not.mpr hpairs)]
    simp only [Option.bind_eq_bind, Option.bind_eq_some_iff]
    exact ⟨runs, hruns, items, hitems, rfl⟩
  -- and the run has no others
  have hof : itemsOfRun { db with runs, items } r = rows := by
    have hrows : rows.filter (fun x => x.2.evalRunId == r) = rows :=
      List.filter_eq_self.mpr fun x hx => beq_iff_eq.mpr (hnew x hx).1
    have hold := itemsOfRun_eq_nil hfk hfresh.run
    unfold itemsOfRun at hold ⊢
    rw [Table.rows_insertAll hitems, List.filter_append, hold, hrows, List.nil_append]
  refine ⟨_, hinsert, ⟨?_, ?_, ?_, ?_, ?_, ?_, ?_, rfl, rfl⟩⟩
  · refine ⟨run, Table.rows_insertAll hruns, ?_, ?_⟩
    · simp only [run]
      split <;> rfl
    · simp only [run, hempty]
      split <;> rfl
  · rw [hof]
    exact Table.rows_insertAll hitems
  · rw [hof, hids]
  · rw [hof]
    exact fun x hx => (hnew x hx).2
  · rw [hof, hpair]
    exact (nodup_tasksOf cat _).product (nodup_endpointsOf cat payload)
  · intro t e
    rw [hof, hpair, List.mem_product, mem_tasksOf, mem_endpointsOf]
    exact and_congr_right fun _ => and_iff_right_of_imp (hknown.2 e)
  · rw [hof, ← hcount, ← hpair, List.length_map]

end Rows

/-! ## 3. The messages -/

/-- The request can take its publications one after the other. -/
theorem enqueue_run {h : η} (now : Timestamp) (pending : List ItemId) :
    ∀ {w : World σ η},
      w.handlers h = (if pending = [] then none else some (.createEnqueue pending)) →
      ∃ b w', Run (step cfg) w b w' ∧ (∀ p ∈ b, p.2 = .handler h now) ∧
        w'.store = { w.store with
          queue := w.store.queue ++ pending, sent := w.store.sent ++ pending } ∧
        w'.handlers h = none := by
  induction pending with
  | nil =>
    intro w hw
    exact ⟨[], w, .nil, by simp, by simp, hw⟩
  | cons i rest ih =>
    intro w hw
    have hw : w.handlers h = some (.createEnqueue (i :: rest)) := by simpa using hw
    let w₁ : World σ η := { w with store := enqueueRunItem w.store i }.setHandler h
      (if rest = [] then none else some (.createEnqueue rest))
    have hs : step cfg w (.handler h now) = some w₁ := by
      simp [step, hw, stepHandler, w₁]
    obtain ⟨b, w', hrun, hb, hstore, hdone⟩ : ∃ b w', Run (step cfg) w₁ b w' ∧ _ :=
      ih (by simp [w₁])
    refine ⟨_, w', .cons hs hrun, List.forall_mem_cons.mpr ⟨rfl, hb⟩, ?_, hdone⟩
    rw [hstore]
    simp [w₁, enqueueRunItem]

/-- **Each item has one message from the request that created it**, whoever moves in between. -/
theorem published_of_create {h : η} {itemIds : List ItemId} {b : List (World σ η × Label σ η)}
    (hw : w.handlers h = if itemIds = [] then none else some (.createEnqueue itemIds))
    (hb : Run (step cfg) w b w')
    (hcall : Along (fun u l => u.handlers h ≠ none ∧ l ≠ .drop h) b)
    (hdone : w'.handlers h = none) :
    b.filterMap (publishedBy h) = itemIds := by
  by_cases hnil : itemIds = []
  · cases b with
    | nil => exact hnil.symm
    | cons p b =>
      -- the request was over before
      obtain ⟨hstart, -⟩ := Run.at (show Run (step cfg) w ([] ++ p :: b) w' from hb)
      have hbusy := (hcall p List.mem_cons_self).1
      rw [hstart.eq_of_nil rfl, hw, if_pos hnil] at hbusy
      exact absurd rfl hbusy
  · rw [if_neg hnil] at hw
    obtain ⟨k, hk⟩ := published_of_run hw (List.length_pos_of_ne_nil hnil) hb
      (hcall.mono fun _ _ hok => hok.1)
    have hall : itemIds.length ≤ k := by
      by_contra hlt
      obtain ⟨-, hbusy⟩ | ⟨-, hbroken⟩ := hk.state
      · rw [hdone] at hbusy
        cases hbusy
      · obtain ⟨b₀, u, rfl, -⟩ := hbroken (not_le.mp hlt)
        exact (hcall (u, .drop h) (by simp)).2 rfl
    rw [hk.log]
    exact List.take_of_length_le hall

/-! ## 4. The request -/

/-- **Fan-out is exactly the product.** -/
theorem fan_out {h : η} (hfree : w.handlers h = none) (hfk : w.store.db.ForeignKeys cfg.catalog)
    (payload : EvalRunCreate) (r : RunId) (itemIds : List ItemId) (now : Timestamp) :
    (¬ payload.Known cfg.catalog → (∃ e, fanOut cfg.catalog payload = .error e) ∧
        step cfg w (.create h payload r itemIds now) = some w) ∧
      (payload.Known cfg.catalog → FreshIds w.store.db r itemIds →
        itemIds.length = (tasksOf cfg.catalog payload.taskSetId).length *
          payload.modelEndpointIds.toFinset.card →
        ∃ w₁, step cfg w (.create h payload r itemIds now) = some w₁ ∧
          FannedOut cfg.catalog payload r itemIds w.store.db w₁.store.db ∧
          w₁.store.queue = w.store.queue ∧ w₁.store.sent = w.store.sent ∧
          (∃ b w₂, Run (step cfg) w₁ b w₂ ∧ (∀ p ∈ b, p.2 = .handler h now) ∧
            w₂.store = { w₁.store with
              queue := w₁.store.queue ++ itemIds, sent := w₁.store.sent ++ itemIds } ∧
            w₂.handlers h = none) ∧
          ∀ b w₂, Run (step cfg) w₁ b w₂ →
            Along (fun u l => u.handlers h ≠ none ∧ l ≠ .drop h) b → w₂.handlers h = none →
            b.filterMap (publishedBy h) = itemIds) := by
  constructor
  · intro hunknown
    obtain ⟨e, he⟩ := fanOut_of_not_known hunknown
    exact ⟨⟨e, he⟩, by simp [step, hfree, he]⟩
  · intro hknown hfresh hlen
    obtain ⟨db, hinsert, hout⟩ := insertRun_of_fresh now hfk hknown hfresh hlen
    let w₁ : World σ η := { w with store := { w.store with db } }.setHandler h
      (if itemIds = [] then none else some (.createEnqueue itemIds))
    have hw₁ : w₁.handlers h = if itemIds = [] then none else some (.createEnqueue itemIds) := by
      simp [w₁]
    have hs : step cfg w (.create h payload r itemIds now) = some w₁ := by
      simp [step, hfree, fanOut_of_known hknown, hinsert, w₁]
    refine ⟨w₁, hs, hout, rfl, rfl, enqueue_run now itemIds hw₁, ?_⟩
    exact fun b w₂ hb hcall hdone => published_of_create hw₁ hb hcall hdone

/-- A set of two tasks and an endpoint that is listed twice: two items, two messages. -/
theorem fan_out_twice :
    ∃ b, ∃ w₁ w₂ : World Unit Unit, step (smallConfig 2 3 10000000) World.init
        (.create () ⟨0, [0, 0], List.cons_ne_nil _ _⟩ 7 [3, 4] 0) = some w₁ ∧
      (itemsOfRun w₁.store.db 7).map (fun x => (x.1, x.2.pair)) = [(3, 0, 0), (4, 1, 0)] ∧
      Run (step (smallConfig 2 3 10000000)) w₁ b w₂ ∧ w₂.store.queue = [3, 4] := by
  have hfresh : FreshIds (World.init : World Unit Unit).store.db 7 [3, 4] :=
    ⟨rfl, fun _ _ => rfl, by decide⟩
  obtain ⟨-, hall⟩ := @fan_out Unit Unit _ _ (smallConfig 2 3 10000000) World.init () rfl
    (foreignKeys_of_run .nil) ⟨0, [0, 0], List.cons_ne_nil _ _⟩ 7 [3, 4] 0
  obtain ⟨w₁, hs, hout, hqueue, -, ⟨b, w₂, hrun, -, hstore, -⟩, -⟩ :=
    hall ⟨by decide, by decide⟩ hfresh (by decide)
  refine ⟨b, w₁, w₂, hs, ?_, hrun, ?_⟩
  · obtain rfl := Option.some.inj hs
    decide
  · rw [hstore, hqueue]
    rfl

end EvalHarness
