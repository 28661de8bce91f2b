/-
# What holds in every reachable state

Facts about the whole system that need no restriction on the schedule: they survive duplicate
deliveries, worker deaths and requests that stop half-way.  `Sane` collects them, `sane_step` is
the one-step lemma and `sane_of_run` the statement about runs.
-/
import EvalHarness.Transitions

namespace EvalHarness

variable {σ η : Type} [DecidableEq σ] [DecidableEq η] {cfg : Config} {w w' : World σ η}

/-! ## 1. What a row never loses -/

/-- No transition moves an item to another run, task or endpoint. -/
theorem ItemChange.keeps {σ η : Type} {w : World σ η}
    {i : ItemId} {row row' : RunItem} {l : Label σ η}
    (h : ItemChange cfg w i row l row') :
    row'.evalRunId = row.evalRunId ∧ row'.taskId = row.taskId ∧
      row'.modelEndpointId = row.modelEndpointId := by
  cases h <;> exact ⟨rfl, rfl, rfl⟩

/-- The spending of a run changes by rollups only. -/
theorem RunChange.spending {σ η : Type} {w : World σ η}
    {r : RunId} {run run' : EvalRun} {l : Label σ η}
    (h : RunChange cfg w r run l run') :
    (run'.totalCostUsd = run.totalCostUsd ∧ run'.totalTokens = run.totalTokens) ∨
      ∃ s c i v res row, l = .exec s c ∧ w.workers s = some ⟨i, .at v (.finalise res)⟩ ∧
        v.evalRunId = r ∧ w.store.db.items.get i = some row ∧ row.status = .running ∧
        run' = EvalHarness.rollup v res run := by
  cases h with
  | rollup hw hv hrow hrun => exact Or.inr ⟨_, _, _, _, _, _, rfl, hw, hv, hrow, hrun, rfl⟩
  | _ => exact Or.inl ⟨rfl, rfl⟩

/-- A cancelled run stays cancelled: every update of a run's status is guarded. -/
theorem RunChange.cancelled {σ η : Type} {w : World σ η}
    {r : RunId} {run run' : EvalRun} {l : Label σ η}
    (h : RunChange cfg w r run l run') (hc : run.status = .cancelled) :
    run'.status = .cancelled := by
  cases h with
  | keep | rollup => exact hc
  | abort _ _ hover => simp [overBudget, hc] at hover
  | checkFailed _ _ _ hst | checkCompleted _ _ _ hst | reopen _ hst =>
    exact absurd (hc.symm.trans hst) (by simp)
  | cancel _ hst => rfl

/-- The run an item belongs to, as it is stored. -/
def World.runOf (w : World σ η) (i : ItemId) : Option RunId :=
  (w.store.db.items.get i).map RunItem.evalRunId

/-- The status of an item, as it is stored. -/
def World.statusOf (w : World σ η) (i : ItemId) : Option RunItemStatus :=
  (w.store.db.items.get i).map RunItem.status

/-- The status of a run, as it is stored. -/
def World.runStatusOf (w : World σ η) (r : RunId) : Option EvalRunStatus :=
  (w.store.db.runs.get r).map EvalRun.status

/-- An item stays in its run. -/
theorem step_runOf {l : Label σ η} (hs : step cfg w l = some w') {i : ItemId} {r : RunId}
    (h : w.runOf i = some r) : w'.runOf i = some r := by
  obtain ⟨row, hrow, rfl⟩ := Option.map_eq_some_iff.mp h
  obtain ⟨row', hrow', hch⟩ := step_item hs hrow
  simp [World.runOf, hrow', hch.keeps.1]

theorem step_cancelled {l : Label σ η} (hs : step cfg w l = some w') {r : RunId}
    (h : w.runStatusOf r = some .cancelled) : w'.runStatusOf r = some .cancelled := by
  obtain ⟨run, hrun, hst⟩ := Option.map_eq_some_iff.mp h
  obtain ⟨run', hrun', hch⟩ := step_run hs hrun
  simp [World.runStatusOf, hrun', hch.cancelled hst]

/-! ## 2. The invariant -/

/-- The item and the run a request for a replay is about, before its transaction. -/
def Handler.replays : Handler → Option (ItemId × RunId)
  | .replayReadRun i r | .replayCommit i r => some (i, r)
  | _ => none

/-- The items a request has still to publish a message for. -/
def Handler.owes : Handler → List ItemId
  | .createEnqueue pending => pending
  | .replayEnqueue i => [i]
  | _ => []

/-- The item a request publishes a message for in its next step. -/
def Handler.publishes : Handler → Option ItemId
  | .createEnqueue (i :: _) => some i
  | .replayEnqueue i => some i
  | _ => none

theorem Handler.publishes_mem {x : Handler} {i : ItemId} (h : x.publishes = some i) :
    i ∈ x.owes := by
  cases x with
  | createEnqueue pending =>
    cases pending with
    | nil => exact absurd h (by simp [Handler.publishes])
    | cons j rest =>
      obtain rfl := Option.some.inj h
      simp [Handler.owes]
  | replayEnqueue j =>
    obtain rfl := Option.some.inj h
    simp [Handler.owes]
  | _ => exact absurd h (by simp [Handler.publishes])

/-- The step drops its item because the run is cancelled. -/
def Pc.skips : Pc → Bool
  | .skipCancelled | .dropCancelled => true
  | _ => false

/-- The state of the system makes sense. -/
structure Sane (cfg : Config) (w : World σ η) : Prop where
  /-- The foreign keys of `run_item`. -/
  run_of_item : ∀ i row, w.store.db.items.get i = some row →
    ∃ run, w.store.db.runs.get row.evalRunId = some run
  catalog_of_item : ∀ i row, w.store.db.items.get i = some row →
    (∃ task, cfg.catalog.tasks.get row.taskId = some task) ∧
      ∃ e, cfg.catalog.endpoints.get row.modelEndpointId = some e
  known : ∀ s e, w.workers s = some e → e.rid ∈ w.store.sent
  /-- What an execution remembers from its initial read is still what its item says. -/
  loaded : ∀ s i v pc, w.workers s = some ⟨i, .at v pc⟩ →
    ∃ row, w.store.db.items.get i = some row ∧ v.evalRunId = row.evalRunId ∧
      cfg.catalog.endpoints.get row.modelEndpointId = some v.endpoint ∧
      cfg.catalog.tasks.get row.taskId = some v.task
  /-- An execution gives its item up as cancelled only when the run is. -/
  skipping : ∀ s i v pc, w.workers s = some ⟨i, .at v pc⟩ → pc.skips = true →
    w.runStatusOf v.evalRunId = some .cancelled
  /-- Runs are created past `pending`. -/
  not_pending : ∀ r run, w.store.db.runs.get r = some run → run.status ≠ .pending
  replaying : ∀ h x i r, w.handlers h = some x → x.replays = some (i, r) → w.runOf i = some r
  owing : ∀ h x i, w.handlers h = some x → i ∈ x.owes → (w.store.db.items.get i).isSome
  queued : ∀ i, i ∈ w.store.queue → i ∈ w.store.sent
  sent : ∀ i, i ∈ w.store.sent → (w.store.db.items.get i).isSome

theorem sane_init {σ η : Type} : Sane cfg (World.init : World σ η) where
  run_of_item i row h := absurd h (by simp [World.init, Db.empty])
  catalog_of_item i row h := absurd h (by simp [World.init, Db.empty])
  known s e h := absurd h (by simp [World.init])
  loaded s i v pc h := absurd h (by simp [World.init])
  skipping s i v pc h := absurd h (by simp [World.init])
  not_pending r run h := absurd h (by simp [World.init, Db.empty])
  replaying h x i r hx := absurd hx (by simp [World.init])
  owing h x i hx := absurd hx (by simp [World.init])
  queued i h := absurd h (by simp [World.init])
  sent i h := absurd h (by simp [World.init])

/-- The check after the provider call gives an item up only when it read `cancelled`. -/
theorem PcStep.skips {c : Choice} {rid : ItemId} {v : Loaded} {m : Backend} {pc pc' : Pc}
    (h : PcStep cfg c rid v m pc pc') (hp : pc'.skips = true) :
    (m.db.runs.get v.evalRunId).map EvalRun.status = some .cancelled := by
  cases h with
  | cancelled hc => exact hc
  | _ => exact absurd hp (by simp [Pc.skips])

/-- Items are never deleted. -/
theorem step_isSome {l : Label σ η} (hs : step cfg w l = some w') {i : ItemId}
    (h : (w.store.db.items.get i).isSome) : (w'.store.db.items.get i).isSome := by
  obtain ⟨row, hrow⟩ := Option.isSome_iff_exists.mp h
  obtain ⟨row', hrow', -⟩ := step_item hs hrow
  exact Option.isSome_iff_exists.mpr ⟨row', hrow'⟩

/-- What a transition does to the messages: nothing, hand one out, or publish one. -/
inductive QueueChange (w w' : World σ η) : Label σ η → Prop
  | same {l} (hl : ∀ s i, l ≠ .deliver s i) (hq : w'.store.queue = w.store.queue)
      (hsent : w'.store.sent = w.store.sent) : QueueChange w w' l
  | taken {s i} (hi : i ∈ w.store.queue) (hq : w'.store.queue = w.store.queue.erase i)
      (hsent : w'.store.sent = w.store.sent) : QueueChange w w' (.deliver s i)
  | published {h now x i} (hx : w.handlers h = some x) (hi : x.publishes = some i)
      (hq : w'.store.queue = w.store.queue ++ [i]) (hsent : w'.store.sent = w.store.sent ++ [i]) :
      QueueChange w w' (.handler h now)

/-- An execution's step publishes no message and takes none. -/
theorem executeRunItem_messages (cfg : Config) (c : Choice) (rid : ItemId) (m : Backend) (p : Phase) :
    (executeRunItem cfg c rid m p).1.queue = m.queue ∧
      (executeRunItem cfg c rid m p).1.sent = m.sent := by
  cases p with
  | start => exact ⟨rfl, rfl⟩
  | «at» v pc =>
    cases pc with
    | complete | judge | checkCancelled | gradeRead | reviewCheck | gradeCommit | finalise
      | abortCheck =>
      simp only [executeRunItem, stepRunItem]
      split <;> exact ⟨rfl, rfl⟩
    | _ => exact ⟨rfl, rfl⟩

/-- **Messages**: a transition changes them in these ways only. -/
theorem step_queue {l : Label σ η} (hs : step cfg w l = some w') : QueueChange w w' l := by
  cases step_cases hs with
  | createRefused | cancelRefused | replayRefused | cancelling | replaying | dropped | redelivered
    | died => exact .same (by simp) rfl rfl
  | created hc => exact .same (by simp) hc.queue hc.sent
  | delivered _ hq => exact .taken hq rfl rfl
  | @executed s c e =>
    obtain ⟨hq, hsent⟩ := executeRunItem_messages cfg c e.rid w.store e.phase
    exact .same (by simp) (by simpa using hq) (by simpa using hsent)
  | @handled h now x hx =>
    cases x with
    | createEnqueue pending =>
      cases pending with
      | nil => exact .same (by simp) rfl rfl
      | cons i rest => exact .published hx rfl rfl rfl
    | replayReadRun rid r =>
      refine .same (by simp) ?_ ?_ <;>
      · simp only [World.setHandler_store, stepHandler]
        split <;> rfl
    | cancelCommit | replayCommit => exact .same (by simp) rfl rfl
    | replayEnqueue rid => exact .published hx rfl rfl rfl

/-- The log of sent messages only grows. -/
theorem step_sent {l : Label σ η} (hs : step cfg w l = some w') {i : ItemId}
    (hi : i ∈ w.store.sent) : i ∈ w'.store.sent := by
  cases step_queue hs with
  | same _ _ hsent | taken _ _ hsent => rw [hsent]; exact hi
  | published _ _ _ hsent => rw [hsent]; exact List.mem_append_left _ hi

/-- What a request owes after its step it owed before, or its transaction made it owe. -/
theorem stepHandler_owes {m : Backend} {now : Timestamp} {x x' : Handler} {i : ItemId}
    (h : (stepHandler m now x).2 = some x') (hi : i ∈ x'.owes) :
    i ∈ x.owes ∨ ∃ r, x = .replayCommit i r := by
  cases stepHandler_next h with
  | enqueue => exact Or.inl (List.mem_cons_of_mem _ hi)
  | readRun => exact absurd hi (by simp [Handler.owes])
  | @commit rid r =>
    simp only [Handler.owes, List.mem_singleton] at hi
    exact Or.inr ⟨r, by rw [hi]⟩

/-- A replay request stays about its item and its run. -/
theorem stepHandler_replays {m : Backend} {now : Timestamp} {x x' : Handler} {k : ItemId × RunId}
    (h : (stepHandler m now x).2 = some x') (hk : x'.replays = some k) : x.replays = some k := by
  cases stepHandler_next h with
  | readRun => exact hk
  | enqueue | commit => exact absurd hk (by simp [Handler.replays])

/-- The read of the item tells a replay request the run of its item. -/
theorem replayReadItem_ok {db : Db} {rid : ItemId} {r : RunId} (h : replayReadItem db rid = .ok r) :
    ∃ row, db.items.get rid = some row ∧ row.status = .deadLettered ∧ row.evalRunId = r := by
  unfold replayReadItem at h
  cases hrow : db.items.get rid with
  | none => simp [hrow] at h
  | some row =>
    simp only [hrow] at h
    split at h
    · exact absurd h (by simp)
    · rename_i hd
      exact ⟨row, rfl, by simpa using hd, Except.ok.inj h⟩

/-! ## 3. Every step keeps it -/

/-- An item's run is in its table before the item. -/
theorem run_of_item_step {l : Label σ η} (hI : Sane cfg w) (hs : step cfg w l = some w')
    {i : ItemId} {row' : RunItem} (hrow' : w'.store.db.items.get i = some row') :
    ∃ run, w'.store.db.runs.get row'.evalRunId = some run := by
  cases hrow : w.store.db.items.get i with
  | some row =>
    have hch := itemChange hs hrow hrow'
    obtain ⟨run, hrun⟩ := hI.run_of_item i row hrow
    obtain ⟨run', hrun', -⟩ := step_run hs hrun
    exact ⟨run', by rw [hch.keeps.1]; exact hrun'⟩
  | none =>
    obtain ⟨h, payload, r, itemIds, now, rfl, hc, -, p, rfl, -⟩ := step_item_new hs hrow' hrow
    obtain ⟨pairs, -, hins⟩ := hc.pairs
    obtain ⟨run, rows, hruns, -⟩ := insertRun_tables hins
    exact ⟨run, (Table.get_insertAll_some hruns).mpr (Or.inr (by simp))⟩

/-- What an execution remembers stays true, and is true when it is read. -/
theorem loaded_step {l : Label σ η} (hI : Sane cfg w) (hs : step cfg w l = some w')
    {s : σ} {i : ItemId} {v : Loaded} {pc : Pc}
    (he' : w'.workers s = some ⟨i, .at v pc⟩) :
    ∃ row, w'.store.db.items.get i = some row ∧ v.evalRunId = row.evalRunId ∧
      cfg.catalog.endpoints.get row.modelEndpointId = some v.endpoint ∧
      cfg.catalog.tasks.get row.taskId = some v.task := by
  have key : ∀ row, w.store.db.items.get i = some row → v.evalRunId = row.evalRunId →
      cfg.catalog.endpoints.get row.modelEndpointId = some v.endpoint →
      cfg.catalog.tasks.get row.taskId = some v.task →
      ∃ row', w'.store.db.items.get i = some row' ∧ v.evalRunId = row'.evalRunId ∧
        cfg.catalog.endpoints.get row'.modelEndpointId = some v.endpoint ∧
        cfg.catalog.tasks.get row'.taskId = some v.task := by
    intro row hrow hv hend htask
    obtain ⟨row', hrow', hch⟩ := step_item hs hrow
    obtain ⟨h1, h2, h3⟩ := hch.keeps
    exact ⟨row', hrow', hv.trans h1.symm, by rw [h3]; exact hend, by rw [h2]; exact htask⟩
  cases step_at hs he' with
  | stayed hw _ | stepped hw _ =>
    obtain ⟨row, hrow, hv, hend, htask⟩ := hI.loaded s i v _ hw
    exact key row hrow hv hend htask
  | started _ hrow htask hend hv => exact key _ hrow hv.1 hend htask

/-- A cancelled run stays so, and a step that gives up has just read it. -/
theorem skipping_step {l : Label σ η} (hI : Sane cfg w) (hs : step cfg w l = some w')
    {s : σ} {i : ItemId} {v : Loaded} {pc : Pc}
    (he' : w'.workers s = some ⟨i, .at v pc⟩) (hpc : pc.skips = true) :
    w'.runStatusOf v.evalRunId = some .cancelled := by
  refine step_cancelled hs ?_
  cases step_at hs he' with
  | stayed hw _ => exact hI.skipping s i v pc hw hpc
  | started _ _ _ _ hv hrun hcase =>
    rcases hcase with ⟨-, hst⟩ | ⟨rfl, -⟩ | ⟨rfl, -⟩
    · simp [World.runStatusOf, hv.1, hrun, hst]
    · exact absurd hpc (by simp [Pc.skips])
    · simp only [nextAttempt] at hpc
      split at hpc <;> exact absurd hpc (by simp [Pc.skips])
  | stepped _ hstep => exact hstep.skips hpc

/-- A replay keeps the run it has read. -/
theorem replaying_step {l : Label σ η} (hI : Sane cfg w) (hs : step cfg w l = some w')
    {h : η} {x' : Handler} {i : ItemId} {r : RunId}
    (hx' : w'.handlers h = some x') (hk : x'.replays = some (i, r)) :
    w'.runOf i = some r := by
  cases step_request hs hx' with
  | stayed hw _ => exact step_runOf hs (hI.replaying h x' i r hw hk)
  | created _ hx => subst hx; exact absurd hk (by simp [Handler.replays])
  | cancelling _ _ hx => subst hx; exact absurd hk (by simp [Handler.replays])
  | replaying _ hc hx =>
    subst hx
    simp only [Handler.replays, Option.some.injEq, Prod.mk.injEq] at hk
    obtain ⟨rfl, rfl⟩ := hk
    obtain ⟨row, hrow, -, hr⟩ := replayReadItem_ok hc
    exact step_runOf hs (by simp [World.runOf, hrow, hr])
  | moved hw hn => exact step_runOf hs (hI.replaying h _ i r hw (stepHandler_replays hn hk))

/-- What a handler has still to publish is committed. -/
theorem owing_step {l : Label σ η} (hI : Sane cfg w) (hs : step cfg w l = some w')
    {h : η} {x' : Handler} {i : ItemId}
    (hx' : w'.handlers h = some x') (hi : i ∈ x'.owes) : (w'.store.db.items.get i).isSome := by
  cases step_request hs hx' with
  | stayed hw _ => exact step_isSome hs (hI.owing h x' i hw hi)
  | created hc hx =>
    subst hx
    obtain ⟨pairs, -, hins⟩ := hc.pairs
    obtain ⟨run, rows, -, hitems, -, -, hids, -⟩ := insertRun_tables hins
    simp only [Handler.owes, ← hids, List.mem_map] at hi
    obtain ⟨⟨k, row⟩, hmem, rfl⟩ := hi
    rw [(Table.get_insertAll_some hitems).mpr (Or.inr hmem)]
    rfl
  | cancelling _ _ hx => subst hx; exact absurd hi (by simp [Handler.owes])
  | replaying _ _ hx => subst hx; exact absurd hi (by simp [Handler.owes])
  | moved hw hn =>
    rcases stepHandler_owes hn hi with hold | ⟨r, rfl⟩
    · exact step_isSome hs (hI.owing h _ i hw hold)
    · obtain ⟨row, hrow, -⟩ := Option.map_eq_some_iff.mp (hI.replaying h _ i r hw rfl)
      exact step_isSome hs (by rw [hrow]; rfl)

theorem sane_step {l : Label σ η} (hI : Sane cfg w) (hs : step cfg w l = some w') :
    Sane cfg w' where
  run_of_item _ _ hrow' := run_of_item_step hI hs hrow'
  catalog_of_item := by
    intro i row' hrow'
    cases hrow : w.store.db.items.get i with
    | some row =>
      have hch := itemChange hs hrow hrow'
      rw [hch.keeps.2.1, hch.keeps.2.2]
      exact hI.catalog_of_item i row hrow
    | none =>
      obtain ⟨_, _, _, _, _, -, -, -, p, rfl, hcat⟩ := step_item_new hs hrow' hrow
      exact hcat
  known := by
    intro s e' he'
    refine step_sent hs ?_
    cases step_worker hs he' with
    | stayed hw _ => exact hI.known s e' hw
    | delivered _ hq he => subst he; exact hI.queued _ hq
    | redelivered _ hq he => subst he; exact hq
    | @moved c e p hw _ he => rw [he]; exact hI.known s e hw
  loaded _ _ _ _ he' := loaded_step hI hs he'
  skipping _ _ _ _ he' hpc := skipping_step hI hs he' hpc
  not_pending := by
    intro r run' hr'
    cases hr : w.store.db.runs.get r with
    | some run =>
      have hch := runChange hs hr hr'
      have hne := hI.not_pending r run hr
      cases hch with
      | keep | rollup => exact hne
      | _ => simp
    | none =>
      obtain ⟨h, payload, itemIds, now, -, -, -, -, -, hst⟩ := step_run_new hs hr' hr
      split at hst <;> simp [hst.1]
  replaying _ _ _ _ hx' hk := replaying_step hI hs hx' hk
  owing _ _ _ hx' hi := owing_step hI hs hx' hi
  queued := by
    intro i hi
    cases step_queue hs with
    | same _ hq hsent =>
      rw [hsent]
      exact hI.queued i (hq ▸ hi)
    | taken _ hq hsent =>
      rw [hsent]
      exact hI.queued i (List.mem_of_mem_erase (hq ▸ hi))
    | published _ _ hq hsent =>
      rw [hsent]
      rw [hq] at hi
      rcases List.mem_append.mp hi with hi | hi
      · exact List.mem_append_left _ (hI.queued i hi)
      · exact List.mem_append_right _ hi
  sent := by
    intro i hi
    cases step_queue hs with
    | same _ _ hsent | taken _ _ hsent => exact step_isSome hs (hI.sent i (hsent ▸ hi))
    | published hx hj _ hsent =>
      rw [hsent] at hi
      rcases List.mem_append.mp hi with hi | hi
      · exact step_isSome hs (hI.sent i hi)
      · rw [List.mem_singleton.mp hi]
        exact step_isSome hs (hI.owing _ _ _ hx (Handler.publishes_mem hj))

/-- **Every reachable state is sane**, whatever the schedule. -/
theorem sane_of_run {tr : List (World σ η × Label σ η)} (h : Lts.Run (step cfg) World.init tr w) :
    Sane cfg w :=
  h.stable (fun _ _ _ hI hs => sane_step hI hs) sane_init

end EvalHarness
