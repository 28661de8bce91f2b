/-
# A catalog that grows (`app/api/v1/task_sets.py`, `app/api/v1/model_endpoints.py`)

Task sets, tasks and endpoints are added while runs are under way; nothing removes or changes them.
`Site` is the system of `System.lean` with its catalog inside the state.  A creation reads the
catalog of its moment, and so does every execution.

`Run.grown` carries over what was proved with a fixed catalog: an invariant that survives additions
to the catalog and the steps of the system holds on a site.  `growing_ledger` is the ledger so
obtained.  `growing_reports` says what an addition does to existing runs, namely nothing: a run has
the items it was created with, and its reports always account for all of them.  `completed_report`
adds what a completed run may still show.

Left out: the names and descriptions of task sets, the provider column, and the reads.
-/
import EvalHarness.Report
import EvalHarness.Progress

namespace EvalHarness

open Lts

/-! ## 1. The handlers -/

/-- The request body of a task; `min_length=1` are the proofs. -/
structure TaskCreate where
  prompt : String
  capability : String
  expectedOutput : Option String := none
  graderType : GraderType
  graderConfig : Option (List (Py.Str × Py.Json)) := none
  prompt_ne : prompt ≠ ""
  capability_ne : capability ≠ ""

/-- The request body of an endpoint, with its bounds. -/
structure ModelEndpointCreate where
  name : String
  modelId : String
  modelVersion : String
  baseUrl : Option String := none
  name_length : 1 ≤ name.length ∧ name.length ≤ 255
  modelId_ne : modelId ≠ ""
  modelVersion_ne : modelVersion ≠ ""

/-- `create_task_set`; `none` when the primary key refuses the row. -/
def createTaskSet (cat : Catalog) (id : TaskSetId) : Option Catalog :=
  if id ∈ cat.taskSets then none else some { cat with taskSets := cat.taskSets ++ [id] }

/-- `create_task`. -/
def createTask (cat : Catalog) (taskSetId : TaskSetId) (id : TaskId) (payload : TaskCreate) :
    Except HttpError (Option Catalog) :=
  if taskSetId ∉ cat.taskSets then .error ⟨404, "Task set not found"⟩
  else
    let task : Task :=
      { taskSetId, prompt := payload.prompt, capability := payload.capability,
        expectedOutput := payload.expectedOutput, graderType := payload.graderType,
        graderConfig := payload.graderConfig }
    .ok ((cat.tasks.insertAll [(id, task)]).map fun tasks => { cat with tasks })

/-- `create_model_endpoint`. -/
def createModelEndpoint (cat : Catalog) (id : EndpointId) (payload : ModelEndpointCreate) :
    Option Catalog :=
  (cat.endpoints.insertAll [(id, ⟨payload.name, payload.modelId, payload.modelVersion,
    payload.baseUrl⟩)]).map fun endpoints => { cat with endpoints }

/-! ## 2. The site -/

structure Site (σ η : Type) where
  catalog : Catalog
  world : World σ η

inductive SiteLabel (σ η : Type)
  | world (l : Label σ η)
  /-- `POST /v1/task-sets`. -/
  | taskSet (id : TaskSetId)
  /-- `POST /v1/task-sets/{set}/tasks`. -/
  | task (taskSetId : TaskSetId) (id : TaskId) (payload : TaskCreate)
  /-- `POST /v1/models`. -/
  | endpoint (id : EndpointId) (payload : ModelEndpointCreate)

/-- The configuration under a catalog. -/
def Config.under (cfg : Config) (cat : Catalog) : Config := { cfg with catalog := cat }

@[simp] theorem Config.under_catalog (cfg : Config) (cat : Catalog) :
    (cfg.under cat).catalog = cat := rfl

variable {σ η : Type} [DecidableEq σ] [DecidableEq η]

def Site.start (cat : Catalog) : Site σ η := ⟨cat, World.init⟩

/-- The transitions of a site.  A refused addition changes nothing. -/
def siteStep (cfg : Config) (s : Site σ η) : SiteLabel σ η → Option (Site σ η)
  | .world l => (step (cfg.under s.catalog) s.world l).map fun world => { s with world }
  | .taskSet id => some { s with catalog := (createTaskSet s.catalog id).getD s.catalog }
  | .task taskSetId id payload =>
    match createTask s.catalog taskSetId id payload with
    | .error _ => some s
    | .ok cat => some { s with catalog := cat.getD s.catalog }
  | .endpoint id payload =>
    some { s with catalog := (createModelEndpoint s.catalog id payload).getD s.catalog }

variable {cfg : Config} {w w' : World σ η} {s s' : Site σ η}

/-! ## 3. Additions -/

/-- Everything that was there is there. -/
structure Catalog.Extends (cat cat' : Catalog) : Prop where
  taskSets : ∀ id ∈ cat.taskSets, id ∈ cat'.taskSets
  tasks : ∀ id task, cat.tasks.get id = some task → cat'.tasks.get id = some task
  endpoints : ∀ id me, cat.endpoints.get id = some me → cat'.endpoints.get id = some me

theorem Catalog.Extends.refl (cat : Catalog) : cat.Extends cat :=
  ⟨fun _ h => h, fun _ _ h => h, fun _ _ h => h⟩

theorem Catalog.Extends.trans {cat cat' cat'' : Catalog} (h : cat.Extends cat')
    (h' : cat'.Extends cat'') : cat.Extends cat'' :=
  ⟨fun id hid => h'.taskSets id (h.taskSets id hid),
    fun id task ht => h'.tasks id task (h.tasks id task ht),
    fun id me hm => h'.endpoints id me (h.endpoints id me hm)⟩

theorem createTaskSet_extends (cat : Catalog) (id : TaskSetId) :
    cat.Extends ((createTaskSet cat id).getD cat) := by
  unfold createTaskSet
  split
  · exact .refl cat
  · exact ⟨fun _ h => List.mem_append_left _ h, fun _ _ h => h, fun _ _ h => h⟩

theorem createTask_extends {cat : Catalog} {taskSetId : TaskSetId} {id : TaskId}
    {payload : TaskCreate} {cat' : Option Catalog}
    (h : createTask cat taskSetId id payload = .ok cat') : cat.Extends (cat'.getD cat) := by
  unfold createTask at h
  split at h
  · exact absurd h (by simp)
  · obtain rfl := Except.ok.inj h
    cases hins : cat.tasks.insertAll _ with
    | none => exact .refl cat
    | some tasks =>
      exact ⟨fun _ h => h, fun _ _ h => (Table.get_insertAll_some hins).mpr (Or.inl h),
        fun _ _ h => h⟩

theorem createModelEndpoint_extends (cat : Catalog) (id : EndpointId)
    (payload : ModelEndpointCreate) :
    cat.Extends ((createModelEndpoint cat id payload).getD cat) := by
  unfold createModelEndpoint
  cases hins : cat.endpoints.insertAll _ with
  | none => exact .refl cat
  | some endpoints =>
    exact ⟨fun _ h => h, fun _ _ h => h,
      fun _ _ h => (Table.get_insertAll_some hins).mpr (Or.inl h)⟩

/-- A transition of a site is one of the system under the catalog of the moment, or an addition. -/
inductive SiteStep (cfg : Config) (s : Site σ η) : SiteLabel σ η → Site σ η → Prop
  | world {l w'} (hs : step (cfg.under s.catalog) s.world l = some w') :
      SiteStep cfg s (.world l) ⟨s.catalog, w'⟩
  | added {l cat} (hl : ∀ l', l ≠ .world l') (hext : s.catalog.Extends cat) :
      SiteStep cfg s l ⟨cat, s.world⟩

theorem siteStep_cases {l : SiteLabel σ η} (hs : siteStep cfg s l = some s') :
    SiteStep cfg s l s' := by
  cases l with
  | world l =>
    obtain ⟨w', hw, rfl⟩ := Option.map_eq_some_iff.mp hs
    exact .world hw
  | taskSet id =>
    obtain rfl := Option.some.inj hs
    exact .added (by simp) (createTaskSet_extends _ _)
  | endpoint id payload =>
    obtain rfl := Option.some.inj hs
    exact .added (by simp) (createModelEndpoint_extends _ _ _)
  | task taskSetId id payload =>
    simp only [siteStep] at hs
    split at hs
    · obtain rfl := Option.some.inj hs
      exact .added (by simp) (.refl _)
    · rename_i cat hok
      obtain rfl := Option.some.inj hs
      exact .added (by simp) (createTask_extends hok)

theorem siteStep_extends {l : SiteLabel σ η} (hs : siteStep cfg s l = some s') :
    s.catalog.Extends s'.catalog := by
  cases siteStep_cases hs with
  | world => exact .refl _
  | added _ hext => exact hext

/-- The catalog of every moment of a run is part of the last one. -/
theorem extends_of_run {s₀ : Site σ η} {tr : List (Site σ η × SiteLabel σ η)}
    (h : Run (siteStep cfg) s₀ tr s) : ∀ p ∈ tr, p.1.catalog.Extends s.catalog := by
  induction h with
  | nil => exact fun p hp => absurd hp (by simp)
  | snoc _ hs ih =>
    intro p hp
    rcases List.mem_append.mp hp with hp | hp
    · exact (ih p hp).trans (siteStep_extends hs)
    · rw [List.mem_singleton.mp hp]
      exact siteStep_extends hs

/-! ## 4. Carrying over -/

/-- What a run of a site is for the system. -/
def worldTrace (tr : List (Site σ η × SiteLabel σ η)) : List (World σ η × Label σ η) :=
  tr.filterMap fun p =>
    match p.2 with
    | .world l => some (p.1.world, l)
    | _ => none

theorem worldTrace_world {σ η : Type}
    (tr : List (Site σ η × SiteLabel σ η)) (s : Site σ η) (l : Label σ η) :
    worldTrace (tr ++ [(s, .world l)]) = worldTrace tr ++ [(s.world, l)] := by
  simp [worldTrace]

theorem worldTrace_added {σ η : Type} (tr : List (Site σ η × SiteLabel σ η)) (s : Site σ η)
    {l : SiteLabel σ η} (hl : ∀ l', l ≠ .world l') :
    worldTrace (tr ++ [(s, l)]) = worldTrace tr := by
  cases l with
  | world l => exact absurd rfl (hl l)
  | _ => simp [worldTrace]

/-- **Invariants of a site.**  What holds at the start, survives additions to the catalog and is kept
by every permitted step of the system holds on every run of a site. -/
theorem Run.grown (J : Config → List (World σ η × Label σ η) → World σ η → Prop)
    (ok : List (World σ η × Label σ η) → World σ η → Label σ η → Prop) {cat : Catalog}
    {tr : List (Site σ η × SiteLabel σ η)}
    (h0 : J (cfg.under cat) [] World.init)
    (hmono : ∀ c c' a u, Catalog.Extends c c' → J (cfg.under c) a u → J (cfg.under c') a u)
    (hstep : ∀ c a u l u', J (cfg.under c) a u → ok a u l → step (cfg.under c) u l = some u' →
      J (cfg.under c) (a ++ [(u, l)]) u')
    (h : Run (siteStep cfg) (Site.start cat) tr s) (hok : Follows ok (worldTrace tr)) :
    J (cfg.under s.catalog) (worldTrace tr) s.world := by
  induction h with
  | nil => exact h0
  | @snoc tr u l s' _ hs ih =>
    cases siteStep_cases hs with
    | @world l w' hw =>
      rw [worldTrace_world] at hok ⊢
      exact hstep _ _ _ _ _ (ih hok.of_append) (hok _ _ [] rfl) hw
    | added hl hext =>
      rw [worldTrace_added tr u hl] at hok ⊢
      exact hmono _ _ _ _ hext (ih hok)

theorem Sane.mono {σ η : Type} {w : World σ η}
    {cat cat' : Catalog} (hext : cat.Extends cat') (h : Sane (cfg.under cat) w) :
    Sane (cfg.under cat') w where
  run_of_item := h.run_of_item
  catalog_of_item i row hrow := by
    obtain ⟨⟨task, ht⟩, me, hm⟩ := h.catalog_of_item i row hrow
    exact ⟨⟨task, hext.tasks _ _ ht⟩, me, hext.endpoints _ _ hm⟩
  known := h.known
  loaded t i v pc hw := by
    obtain ⟨row, hrow, hr, hm, ht⟩ := h.loaded t i v pc hw
    exact ⟨row, hrow, hr, hext.endpoints _ _ hm, hext.tasks _ _ ht⟩
  skipping := h.skipping
  not_pending := h.not_pending
  replaying := h.replaying
  owing := h.owing
  queued := h.queued
  sent := h.sent

theorem LedgerInv.mono {σ η : Type} [DecidableEq σ] {w : World σ η}
    {cat cat' : Catalog} {tr : List (World σ η × Label σ η)}
    (hext : cat.Extends cat') (h : LedgerInv (cfg.under cat) tr w) :
    LedgerInv (cfg.under cat') tr w :=
  ⟨h.sane.mono hext, h.remembers, h.ledger⟩

theorem saneSite_of_run {cat : Catalog} {tr : List (Site σ η × SiteLabel σ η)}
    (h : Run (siteStep cfg) (Site.start cat) tr s) : Sane (cfg.under s.catalog) s.world :=
  Run.grown (fun cfg _ w => Sane cfg w) (fun _ _ _ => True) sane_init
    (fun _ _ _ _ hext h => h.mono hext) (fun _ _ _ _ _ h _ hs => sane_step h hs) h
    fun _ _ _ _ => trivial

theorem foreignKeys_of_site {cat : Catalog} {tr : List (Site σ η × SiteLabel σ η)}
    (h : Run (siteStep cfg) (Site.start cat) tr s) :
    s.world.store.db.ForeignKeys s.catalog where
  endpoint i row hrow := ((saneSite_of_run h).catalog_of_item i row hrow).2
  run i row hrow := (saneSite_of_run h).run_of_item i row hrow

/-- An execution finds the row it is about, with its task, its endpoint and its run. -/
theorem Sane.loads {σ η : Type} {w : World σ η}
    (hS : Sane cfg w) {t : σ} {e : Exec} (he : w.workers t = some e) :
    (loadRunItem cfg.catalog w.store.db e.rid).isSome = true := by
  obtain ⟨row, hrow⟩ := Option.isSome_iff_exists.mp (hS.sent e.rid (hS.known t e he))
  obtain ⟨⟨task, ht⟩, me, hm⟩ := hS.catalog_of_item e.rid row hrow
  obtain ⟨run, hr⟩ := hS.run_of_item e.rid row hrow
  simp [loadRunItem, hrow, ht, hm, hr]

/-- **The ledger of a site.**  However additions to the catalog interleave with everything else, as
long as executions of one item do not overlap, every run's totals are the sums over its items; and
no execution ever looks for a row that is not there. -/
theorem growing_ledger {cat : Catalog} {tr : List (Site σ η × SiteLabel σ η)}
    (h : Run (siteStep cfg) (Site.start cat) tr s) (hok : Follows Alone (worldTrace tr)) :
    (∀ r run, s.world.store.db.runs.get r = some run →
      run.totalCostUsd = sumOver s.world.store.db r RunItem.cost ∧
        run.totalTokens = sumOver s.world.store.db r RunItem.tokens) ∧
      ∀ t e, s.world.workers t = some e →
        (loadRunItem s.catalog s.world.store.db e.rid).isSome = true := by
  have hI : LedgerInv (cfg.under s.catalog) (worldTrace tr) s.world :=
    Run.grown LedgerInv Alone ⟨sane_init,
        fun _ _ _ _ _ h => absurd h (by simp [World.init]),
        fun _ _ h => absurd h (by simp [World.init, Db.empty])⟩
      (fun _ _ _ _ hext hI => hI.mono hext) (fun _ _ _ _ _ hI hok hs => ledgerInv_step hI hok hs)
      h hok
  exact ⟨hI.ledger, fun t e he => hI.sane.loads he⟩

/-- A task is added while an execution is under way, and the item is delivered twice. -/
def additions : List (SiteLabel Nat Nat) :=
  (launch 0 1 ++ [Label.deliver 0 0] ++ execs 0 answers 5).map SiteLabel.world ++
    [.task 0 7 ⟨"3 + 3?", "arithmetic", some "6", .exactMatch, none, by decide, by decide⟩,
      .endpoint 1 ⟨"other", "gpt-4o", "2", none, by decide, by decide, by decide⟩] ++
    (execs 0 answers 6 ++ [Label.redeliver 0 0] ++ execs 0 answers 1).map SiteLabel.world

theorem growing_ledger_small : ∃ (s : Site Nat Nat) (run : EvalRun),
    (s.catalog.tasks.get 7).isSome = true ∧ s.world.store.db.runs.get 0 = some run ∧
      run.totalCostUsd = 1250000 ∧ run.totalCostUsd = sumOver s.world.store.db 0 RunItem.cost := by
  obtain ⟨tr, s, hrun, -, htest⟩ := exists_run_of_play (siteStep (smallConfig 1 1 5000000))
    (Site.start (smallConfig 1 1 5000000).catalog : Site Nat Nat) (fun _ _ => true) additions
    (fun tr s => (s.world.store.db.runs.get 0).any (fun run => run.totalCostUsd == 1250000) &&
      (s.catalog.tasks.get 7).isSome &&
      followsFrom (fun a w l => decide (Alone a w l)) [] (worldTrace tr))
    (by decide)
  simp only [Bool.and_eq_true, Option.any_eq_true, beq_iff_eq] at htest
  obtain ⟨⟨⟨run, hr, hcost⟩, htask⟩, hfree⟩ := htest
  have hok : Follows Alone (worldTrace tr) := by simpa using follows_of_followsFrom hfree
  exact ⟨s, run, htask, hr, hcost, ((growing_ledger hrun hok).1 0 run hr).1⟩

/-! ## 5. A run keeps its items -/

/-- The pairs of a run's items, with their ids. -/
def shape (db : Db) (r : RunId) : List (ItemId × TaskId × EndpointId) :=
  (itemsOfRun db r).map fun x => (x.1, x.2.pair)

theorem mem_shape {db : Db} {r : RunId} {i : ItemId} {p : TaskId × EndpointId} :
    (i, p) ∈ shape db r ↔ ∃ row, db.items.get i = some row ∧ row.evalRunId = r ∧ row.pair = p := by
  simp only [shape, itemsOfRun, List.mem_map, List.mem_filter, Prod.mk.injEq, beq_iff_eq]
  constructor
  · rintro ⟨⟨j, row⟩, ⟨hx, hr⟩, rfl, hp⟩
    exact ⟨row, (Table.mem_rows_iff _).mp hx, hr, hp⟩
  · rintro ⟨row, hrow, hr, hp⟩
    exact ⟨(i, row), ⟨(Table.mem_rows_iff _).mpr hrow, hr⟩, rfl, hp⟩

theorem nodup_shape (db : Db) (r : RunId) : (shape db r).Nodup := by
  have hkeys : ((shape db r).map Prod.fst).Nodup := by
    rw [shape, List.map_map]
    exact db.items.nodup.sublist (List.filter_sublist.map _)
  exact hkeys.of_map _

/-- No transition adds an item to a run that exists, takes one away or moves one. -/
theorem shape_step {l : Label σ η} (hs : step cfg w l = some w') {r : RunId} {run : EvalRun}
    (hr : w.store.db.runs.get r = some run) :
    (shape w'.store.db r).Perm (shape w.store.db r) := by
  refine (List.perm_ext_iff_of_nodup (nodup_shape _ _) (nodup_shape _ _)).mpr ?_
  rintro ⟨i, p⟩
  rw [mem_shape, mem_shape]
  constructor
  · rintro ⟨row', hrow', hr', hp⟩
    cases hrow : w.store.db.items.get i with
    | some row =>
      obtain ⟨h1, h2, h3⟩ := (itemChange hs hrow hrow').keeps
      exact ⟨row, rfl, h1.symm.trans hr', by rw [← hp, RunItem.pair, RunItem.pair, h2, h3]⟩
    | none =>
      -- the row is of a new run
      obtain ⟨h, payload, r₁, itemIds, now, -, hc, -, q, rfl, -⟩ := step_item_new hs hrow' hrow
      obtain ⟨pairs, -, hins⟩ := hc.pairs
      obtain ⟨run₁, rows, hruns, -⟩ := insertRun_tables hins
      obtain rfl : r₁ = r := hr'
      have hfree := (Table.fresh_of_insertAll hruns).2 r₁ (by simp)
      exact absurd (hr.symm.trans hfree) (by simp)
  · rintro ⟨row, hrow, hr', hp⟩
    obtain ⟨row', hrow', hch⟩ := step_item hs hrow
    obtain ⟨h1, h2, h3⟩ := hch.keeps
    exact ⟨row', hrow', h1.trans hr', by rw [← hp, RunItem.pair, RunItem.pair, h2, h3]⟩

/-- The items of a run are those of a request, under the catalog of its moment. -/
structure Launched (cat : Catalog) (payload : EvalRunCreate) (db : Db) (r : RunId) : Prop where
  taskSet : ∀ run, db.runs.get r = some run → run.taskSetId = payload.taskSetId
  nodup : ((shape db r).map Prod.snd).Nodup
  pairs : ∀ t e, (t, e) ∈ (shape db r).map Prod.snd ↔
    t ∈ tasksOf cat payload.taskSetId ∧ e ∈ payload.modelEndpointIds

theorem RunChange.taskSet {σ η : Type} {w : World σ η}
    {r : RunId} {run run' : EvalRun} {l : Label σ η}
    (h : RunChange cfg w r run l run') : run'.taskSetId = run.taskSetId := by
  cases h <;> rfl

theorem Launched.step {cat : Catalog} {payload : EvalRunCreate} {l : Label σ η} {r : RunId}
    {run : EvalRun} (h : Launched cat payload w.store.db r) (hs : step cfg w l = some w')
    (hr : w.store.db.runs.get r = some run) : Launched cat payload w'.store.db r where
  taskSet _ hr' := (runChange hs hr hr').taskSet.trans (h.taskSet run hr)
  nodup := ((shape_step hs hr).map _).nodup_iff.mpr h.nodup
  pairs t e := ((shape_step hs hr).map _).mem_iff.trans (h.pairs t e)

/-- A creation launches its run. -/
theorem launched_of_created {σ η : Type} [DecidableEq η] {w w' : World σ η}
    {h : η} {payload : EvalRunCreate} {r : RunId} {itemIds : List ItemId}
    {now : Timestamp} (hfk : w.store.db.ForeignKeys cfg.catalog)
    (hc : Created cfg w h payload r itemIds now w') :
    payload.Known cfg.catalog ∧ Launched cfg.catalog payload w'.store.db r := by
  obtain ⟨pairs, hfan, hins⟩ := hc.pairs
  have hknown : payload.Known cfg.catalog := by
    by_contra hno
    obtain ⟨e, he⟩ := fanOut_of_not_known hno
    rw [hfan] at he
    cases he
  obtain rfl := Except.ok.inj ((fanOut_of_known hknown).symm.trans hfan)
  obtain ⟨run, rows, hruns, hitems, -, -, hids, -⟩ := insertRun_tables hins
  have hnew := Table.fresh_of_insertAll hitems
  rw [hids] at hnew
  have hfresh : FreshIds w.store.db r itemIds :=
    ⟨(Table.fresh_of_insertAll hruns).2 r (by simp), hnew.2, hnew.1⟩
  have hlen : itemIds.length = (tasksOf cfg.catalog payload.taskSetId).length *
      payload.modelEndpointIds.toFinset.card := by
    rw [← length_endpointsOf hknown, ← List.length_product]
    by_contra hne
    rw [insertRun, if_pos hne] at hins
    cases hins
  obtain ⟨db', hins', hout⟩ := insertRun_of_fresh now hfk hknown hfresh hlen
  obtain rfl := Option.some.inj (hins.symm.trans hins')
  have hsnd : (shape w'.store.db r).map Prod.snd =
      (itemsOfRun w'.store.db r).map fun x => x.2.pair := by
    rw [shape, List.map_map]
    rfl
  refine ⟨hknown, ⟨fun _ hr' => ?_, by rw [hsnd]; exact hout.nodup, fun t e => ?_⟩⟩
  · obtain ⟨run₁, hrows, htask, -⟩ := hout.run
    have hget : w'.store.db.runs.get r = some run₁ := by
      rw [← Table.mem_rows_iff, hrows]
      simp
    obtain rfl := Option.some.inj (hr'.symm.trans hget)
    exact htask
  · rw [hsnd, hout.pairs, mem_tasksOf]

/-- The creation of a run is in its past, and its items are those of the creation. -/
theorem launched_of_run {cat : Catalog} {tr : List (Site σ η × SiteLabel σ η)}
    (h : Run (siteStep cfg) (Site.start cat) tr s) :
    ∀ r run, s.world.store.db.runs.get r = some run →
      ∃ u h payload itemIds now, (u, .world (.create h payload r itemIds now)) ∈ tr ∧
        payload.Known u.catalog ∧ Launched u.catalog payload s.world.store.db r := by
  induction h with
  | nil => exact fun r run hr => absurd hr (by simp [Site.start, World.init, Db.empty])
  | @snoc tr u l s' hrun hs ih =>
    intro r run' hr'
    have older : ∀ {u' : Site σ η} {l'}, (u', l') ∈ tr → (u', l') ∈ tr ++ [(u, l)] :=
      fun hmem => List.mem_append_left _ hmem
    cases siteStep_cases hs with
    | added hl hext =>
      obtain ⟨u', h, payload, itemIds, now, hmem, hlaunch⟩ := ih r run' hr'
      exact ⟨u', h, payload, itemIds, now, older hmem, hlaunch⟩
    | @world l w' hw =>
      cases hr : u.world.store.db.runs.get r with
      | some run =>
        obtain ⟨u', h, payload, itemIds, now, hmem, hknown, hl⟩ := ih r run hr
        exact ⟨u', h, payload, itemIds, now, older hmem, hknown, hl.step hw hr⟩
      | none =>
        obtain ⟨h, payload, itemIds, now, rfl, hc, -⟩ := step_run_new hw hr' hr
        have hlaunch := launched_of_created (foreignKeys_of_site hrun) hc
        exact ⟨u, h, payload, itemIds, now, by simp, hlaunch⟩

/-- Each endpoint that was asked for has one item for each task, and no other endpoint has any. -/
theorem Launched.length_itemsFor {cat : Catalog} {payload : EvalRunCreate} {db : Db} {r : RunId}
    (h : Launched cat payload db r) (e : EndpointId) :
    (itemsFor db r e).length =
      if e ∈ payload.modelEndpointIds then (tasksOf cat payload.taskSetId).length else 0 := by
  have hpair : ∀ {x}, x ∈ itemsFor db r e → (x.1, x.2.taskId, e) ∈ shape db r := by
    intro x hx
    obtain ⟨hx, he⟩ := List.mem_filter.mp hx
    exact List.mem_map.mpr ⟨x, hx, by rw [RunItem.pair, beq_iff_eq.mp he]⟩
  split
  · rename_i he
    have hnd : ((itemsFor db r e).map fun x => x.2.taskId).Nodup := by
      refine List.Nodup.map_on ?_ ((db.items.nodup.of_map _).sublist
        (List.filter_sublist.trans List.filter_sublist))
      intro x hx y hy hxy
      have hxy' := List.inj_on_of_nodup_map h.nodup (hpair hx) (hpair hy) (by rw [hxy])
      have hx' := List.mem_of_mem_filter (List.mem_of_mem_filter hx)
      have hy' := List.mem_of_mem_filter (List.mem_of_mem_filter hy)
      exact List.inj_on_of_nodup_map db.items.nodup hx' hy' (Prod.mk.inj hxy').1
    have hperm : ((itemsFor db r e).map fun x => x.2.taskId).Perm
        (tasksOf cat payload.taskSetId) := by
      refine (List.perm_ext_iff_of_nodup hnd (nodup_tasksOf _ _)).mpr fun t => ?_
      constructor
      · intro ht
        obtain ⟨x, hx, rfl⟩ := List.mem_map.mp ht
        exact ((h.pairs _ _).mp (List.mem_map.mpr ⟨_, hpair hx, rfl⟩)).1
      · intro ht
        obtain ⟨⟨i, p⟩, hx, hp⟩ := List.mem_map.mp ((h.pairs t e).mpr ⟨ht, he⟩)
        obtain ⟨row, hrow, hr, rfl⟩ := mem_shape.mp hx
        obtain ⟨rfl, rfl⟩ : row.taskId = t ∧ row.modelEndpointId = e := by simpa [RunItem.pair] using hp
        refine List.mem_map.mpr ⟨(i, row), List.mem_filter.mpr ⟨List.mem_filter.mpr
          ⟨(Table.mem_rows_iff _).mpr hrow, by simpa using hr⟩, by simp⟩, rfl⟩
    simpa using hperm.length_eq
  · rename_i he
    rw [List.length_eq_zero_iff, List.eq_nil_iff_forall_not_mem]
    exact fun x hx => he ((h.pairs _ _).mp (List.mem_map.mpr ⟨_, hpair hx, rfl⟩)).2

/-- What a report shows of a run that was launched. -/
theorem Launched.read {cat cat' : Catalog} {payload : EvalRunCreate} {db : Db} {r : RunId}
    (h : Launched cat payload db r) (hfk : (EvalRunReads.snapshot cat' db).ForeignKeys)
    (order : Py.SetOrder EndpointId) (run : EvalRun) :
    (∀ e, e ∈ (readEvalRun order (.snapshot cat' db) r run).models.map (·.modelEndpointId) ↔
      e ∈ payload.modelEndpointIds ∧ tasksOf cat payload.taskSetId ≠ []) ∧
      ∀ m ∈ (readEvalRun order (.snapshot cat' db) r run).models,
        m.counts.total = (tasksOf cat payload.taskSetId).length := by
  have hids : ∀ e, e ∈ (readEvalRun order (.snapshot cat' db) r run).models.map (·.modelEndpointId) ↔
      e ∈ payload.modelEndpointIds ∧ tasksOf cat payload.taskSetId ≠ [] := by
    intro e
    have hlen := h.length_itemsFor e
    rw [(ids_perm order _ r run).mem_iff, mem_modelIds]
    simp only [EvalRunReads.snapshot, or_self, ne_eq, ← List.length_eq_zero_iff, hlen]
    split <;> simp_all
  refine ⟨hids, fun m hm => ?_⟩
  have hasked := ((hids _).mp (List.mem_map_of_mem hm)).1
  rw [StatusCounts.total_of (describes_of_mem hfk hm).counts]
  exact (h.length_itemsFor _).trans (if_pos hasked)

/-- **Reports account for every item, whatever is added.**  On every run of a site, the report of a
run lists exactly the endpoints its creation asked for, each under the name it had then, and the five
counts of each add up to the number of tasks the set had then: tasks and endpoints added since do not
show, and no item is ever lost or duplicated. -/
theorem growing_reports (order : Py.SetOrder EndpointId) {cat : Catalog}
    {tr : List (Site σ η × SiteLabel σ η)} (h : Run (siteStep cfg) (Site.start cat) tr s) {r : RunId}
    {report : EvalRunRead}
    (hr : getEvalRun order (.snapshot s.catalog s.world.store.db) r = .ok report) :
    ∃ u h payload itemIds now, (u, .world (.create h payload r itemIds now)) ∈ tr ∧
      payload.Known u.catalog ∧ report.taskSetId = payload.taskSetId ∧
      (∀ e, e ∈ report.models.map (·.modelEndpointId) ↔
        e ∈ payload.modelEndpointIds ∧ tasksOf u.catalog payload.taskSetId ≠ []) ∧
      ∀ m ∈ report.models, m.counts.total = (tasksOf u.catalog payload.taskSetId).length ∧
        ∃ me, u.catalog.endpoints.get m.modelEndpointId = some me ∧ m.name = me.name := by
  have hfk := EvalRunReads.foreignKeys_snapshot (foreignKeys_of_site h)
  obtain ⟨run, hrun, rfl⟩ := getEvalRun_ok hr
  obtain ⟨u, slot, payload, itemIds, now, hmem, hknown, hl⟩ := launched_of_run h r run hrun
  have hext := extends_of_run h _ hmem
  obtain ⟨hids, htotal⟩ := hl.read hfk order run
  refine ⟨u, slot, payload, itemIds, now, hmem, hknown, hl.taskSet run hrun, hids, fun m hm =>
    ⟨htotal m hm, ?_⟩⟩
  -- the endpoint was there when the run was created, and it is the same one now
  have hasked := ((hids _).mp (List.mem_map_of_mem hm)).1
  obtain ⟨me, hme, hname⟩ := (describes_of_mem hfk hm).name
  obtain ⟨me', hme'⟩ := Option.ne_none_iff_exists'.mp
    (mt (Table.get_eq_none_iff _).mp (not_not.mpr (hknown.2 _ hasked)))
  obtain rfl := Option.some.inj (hme.symm.trans (hext.endpoints _ _ hme'))
  exact ⟨me, hme', hname⟩

/-- A run created here is for so many tasks. -/
def Label.asksFor (cat : Catalog) (n : Nat) : Label σ η → Bool
  | .create _ payload _ _ _ => (tasksOf cat payload.taskSetId).length == n
  | _ => true

def SiteLabel.asksFor (cat : Catalog) (n : Nat) : SiteLabel σ η → Bool
  | .world l => l.asksFor cat n
  | _ => true

/-- The run has one item; the set has two tasks by now. -/
theorem growing_reports_small : ∃ (s : Site Nat Nat) (report : EvalRunRead),
    getEvalRun ⟨id, fun _ => .refl _⟩ (.snapshot s.catalog s.world.store.db) 0 = .ok report ∧
      (tasksOf s.catalog 0).length = 2 ∧ ∀ m ∈ report.models, m.counts.total = 1 := by
  obtain ⟨tr, s, hrun, -, htest⟩ := exists_run_of_play (siteStep (smallConfig 1 1 5000000))
    (Site.start (smallConfig 1 1 5000000).catalog : Site Nat Nat) (fun _ _ => true) additions
    (fun tr s => (s.world.store.db.runs.get 0).isSome && (tasksOf s.catalog 0).length == 2 &&
      tr.all fun p => p.2.asksFor p.1.catalog 1)
    (by decide)
  simp only [Bool.and_eq_true, beq_iff_eq, List.all_eq_true] at htest
  obtain ⟨⟨hsome, hlen⟩, hall⟩ := htest
  obtain ⟨run, hr⟩ := Option.isSome_iff_exists.mp hsome
  have hread : getEvalRun ⟨id, fun _ => .refl _⟩ (.snapshot s.catalog s.world.store.db) 0 =
      .ok (readEvalRun ⟨id, fun _ => .refl _⟩ (.snapshot s.catalog s.world.store.db) 0 run) := by
    exact getEvalRun_of_get _ hr
  obtain ⟨u, h, payload, itemIds, now, hmem, -, -, -, hmodels⟩ := growing_reports _ hrun hread
  exact ⟨s, _, hread, hlen, fun m hm => ((hmodels m hm).1).trans (by
    simpa [SiteLabel.asksFor, Label.asksFor] using hall _ hmem)⟩

/-! ## 6. Completed runs -/

/-- **The report of a completed run.**  Under reliable delivery, every replay finding its item a dead
letter, the report of a completed run that was never cancelled or aborted shows every endpoint it was
created for with every task of its set succeeded or failed: nothing queued, nothing running and no
dead letter. -/
theorem completed_report (order : Py.SetOrder EndpointId) {tr : List (World σ η × Label σ η)}
    (h : Run (step cfg) World.init tr w) (hok : Along Calm tr) {r : RunId}
    (hund : Undisturbed cfg tr r) {report : EvalRunRead}
    (hr : getEvalRun order (.snapshot cfg.catalog w.store.db) r = .ok report)
    (hdone : report.status = .completed) :
    ∃ u h payload itemIds now, (u, .create h payload r itemIds now) ∈ tr ∧
      (∀ e, e ∈ report.models.map (·.modelEndpointId) ↔
        e ∈ payload.modelEndpointIds ∧ tasksOf cfg.catalog payload.taskSetId ≠ []) ∧
      ∀ m ∈ report.models, m.counts.queued = 0 ∧ m.counts.running = 0 ∧ m.counts.deadLettered = 0 ∧
        m.counts.succeeded + m.counts.failed = (tasksOf cfg.catalog payload.taskSetId).length := by
  have hfk := EvalRunReads.foreignKeys_snapshot (foreignKeys_of_run h)
  obtain ⟨run, hrun, rfl⟩ := getEvalRun_ok hr
  -- the run of the system is one of a site to which nothing is added
  have hsite : Run (siteStep cfg) (Site.start cfg.catalog)
      (tr.map fun x => (⟨cfg.catalog, x.1⟩, .world x.2)) (⟨cfg.catalog, w⟩ : Site σ η) :=
    h.map (f := fun w => (⟨cfg.catalog, w⟩ : Site σ η)) (g := SiteLabel.world) fun _ _ => rfl
  obtain ⟨u, slot, payload, itemIds, now, hmem, -, hl⟩ := launched_of_run hsite r run hrun
  obtain ⟨⟨v, l⟩, hv, heq⟩ := List.mem_map.mp hmem
  obtain ⟨rfl, hlab⟩ := Prod.mk.inj heq
  obtain rfl := SiteLabel.world.inj hlab
  obtain ⟨hids, htotal⟩ := hl.read hfk order run
  refine ⟨v, slot, payload, itemIds, now, hv, hids, fun m hm => ?_⟩
  have hclean := ((orderly_of_run h hok).clean r hund).completed
    ((congrArg (Option.map EvalRun.status) hrun).trans (congrArg some hdone))
  have hzero : ∀ st, st ≠ .succeeded → st ≠ .failed → m.counts.of st = 0 := by
    intro st hs hf
    rw [(describes_of_mem hfk hm).counts, List.countP_eq_zero]
    intro x hx hst
    obtain ⟨hrow, hxr⟩ := List.mem_filter.mp (List.mem_of_mem_filter hx)
    rcases hclean x.1 x.2 ((Table.mem_rows_iff _).mp hrow) (by simpa using hxr) with h | h
    · exact hs ((beq_iff_eq.mp hst).symm.trans h)
    · exact hf ((beq_iff_eq.mp hst).symm.trans h)
  have hq : m.counts.queued = 0 := hzero .queued (by decide) (by decide)
  have hru : m.counts.running = 0 := hzero .running (by decide) (by decide)
  have hd : m.counts.deadLettered = 0 := hzero .deadLettered (by decide) (by decide)
  have hsum : m.counts.total = (tasksOf cfg.catalog payload.taskSetId).length := htotal m hm
  rw [StatusCounts.total, hq, hru, hd] at hsum
  exact ⟨hq, hru, hd, by omega⟩

/-- Two items, both answered. -/
theorem completed_report_small : ∃ (w : World Nat Nat) (report : EvalRunRead),
    getEvalRun ⟨id, fun _ => .refl _⟩ (.snapshot (smallConfig 2 1 5000000).catalog w.store.db) 0 = .ok report ∧
      report.status = .completed ∧
      ∀ m ∈ report.models, m.counts.queued = 0 ∧ m.counts.succeeded + m.counts.failed = 2 := by
  obtain ⟨tr, w, hrun, hcalm, htest⟩ := exists_run_of_play (step (smallConfig 2 1 5000000))
    (World.init : World Nat Nat) (fun w l => decide (Calm w l))
    (launch 0 2 ++ [.deliver 0 0] ++ execs 0 answers 11 ++ [.deliver 0 1] ++ execs 0 answers 11)
    (fun tr w => (w.store.db.runs.get 0).any (fun run => run.status == .completed) &&
      tr.all (fun p => !cancelsRun (smallConfig 2 1 5000000) 0 p &&
        !abortsRun (smallConfig 2 1 5000000) 0 p) &&
      tr.all fun p => p.2.asksFor (smallConfig 2 1 5000000).catalog 2)
    (by decide)
  simp only [Bool.and_eq_true, Option.any_eq_true, beq_iff_eq, List.all_eq_true,
    Bool.not_eq_true'] at htest
  obtain ⟨⟨⟨run, hr, hst⟩, hund⟩, hall⟩ := htest
  have hread : getEvalRun ⟨id, fun _ => .refl _⟩ (.snapshot (smallConfig 2 1 5000000).catalog w.store.db) 0 =
      .ok (readEvalRun ⟨id, fun _ => .refl _⟩
        (.snapshot (smallConfig 2 1 5000000).catalog w.store.db) 0 run) := by
    exact getEvalRun_of_get _ hr
  obtain ⟨u, h, payload, itemIds, now, hmem, -, hmodels⟩ := completed_report _ hrun
    (hcalm.mono fun _ _ h => of_decide_eq_true h) hund hread hst
  refine ⟨w, _, hread, hst, fun m hm => ?_⟩
  obtain ⟨hq, -, -, hsum⟩ := hmodels m hm
  exact ⟨hq, hsum.trans (by simpa [Label.asksFor] using hall _ hmem)⟩

end EvalHarness
