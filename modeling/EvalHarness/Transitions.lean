/-
# What one transition can do

Every invariant of the development is an argument about which party can change what.  This
module says it once, so that no later proof unfolds `step`.

* **Transitions.**  `StepCase` lists them, each with the guard it has passed and the world it leaves
  (`step_cases`).  The rest of the module asks what they do to one part of the world.
* **Rows.**  `ItemChange` lists the ways a `run_item` row changes over a transition, `RunChange` the
  ways an `eval_run` row does; each case names the party that makes the change and the guard it
  passed.  `step_item` and `step_run` prove the lists complete, and that no row goes.  Rows that
  appear were inserted by a `create` (`step_item_new`, `step_run_new`).
* **Positions.**  `PcStep` is the order of an execution's steps with what decides each; `WorkerOrigin`
  and `HandlerOrigin` say where an execution or a request that is there after a transition comes
  from (`step_worker`, `step_request`).  What nobody moves stays (`step_worker_stays`,
  `step_request_stays`).
* **Grades and reviews.**  Only the graders' commit writes them (`step_grades`).

Most labels do none of this to the database, and `step_quiet` is their common case.  For the others
the lists follow the functions of `System`: one lemma for an execution's step, one for a request's,
and the transition of the system puts them together.  When a function of the source changes, its
lemma here and the list it is about are what has to be looked at.
-/
import EvalHarness.System

namespace EvalHarness

variable {σ η : Type}

/-! ## 1. The pieces of a world after a step -/

section Pieces

variable [DecidableEq σ] (w : World σ η) (s : σ) (rid : ItemId) (m : Backend) (next : Next)
  (e : Option Exec)

@[simp] theorem World.setWorker_store : (w.setWorker s e).store = w.store := rfl
@[simp] theorem World.setWorker_handlers : (w.setWorker s e).handlers = w.handlers := rfl
@[simp] theorem World.setWorker_results : (w.setWorker s e).results = w.results := rfl

@[simp] theorem World.setWorker_workers :
    (w.setWorker s e).workers = Function.update w.workers s e := rfl

@[simp] theorem World.afterExec_store : (w.afterExec s rid m next).store = m := by
  cases next <;> rfl

@[simp] theorem World.afterExec_handlers : (w.afterExec s rid m next).handlers = w.handlers := by
  cases next <;> rfl

@[simp] theorem World.afterExec_workers :
    (w.afterExec s rid m next).workers =
      Function.update w.workers s (next.phase?.map fun p => ⟨rid, p⟩) := by
  cases next <;> rfl

end Pieces

section Pieces

variable [DecidableEq η] (w : World σ η) (h : η) (x : Option Handler)

@[simp] theorem World.setHandler_store : (w.setHandler h x).store = w.store := rfl
@[simp] theorem World.setHandler_workers : (w.setHandler h x).workers = w.workers := rfl
@[simp] theorem World.setHandler_results : (w.setHandler h x).results = w.results := rfl

@[simp] theorem World.setHandler_handlers :
    (w.setHandler h x).handlers = Function.update w.handlers h x := rfl

end Pieces

variable [DecidableEq σ] [DecidableEq η]

/-! ## 2. The transitions -/

/-- What an accepted `create` did. -/
structure Created (cfg : Config) (w : World σ η) (h : η) (payload : EvalRunCreate) (r : RunId)
    (itemIds : List ItemId) (now : Timestamp) (w' : World σ η) : Prop where
  pairs : ∃ pairs, fanOut cfg.catalog payload = .ok pairs ∧
    insertRun w.store.db payload pairs r itemIds now = some w'.store.db
  idle : w.handlers h = none
  workers : w'.workers = w.workers
  handlers : w'.handlers =
    Function.update w.handlers h (if itemIds = [] then none else some (.createEnqueue itemIds))
  artifacts : w'.store.artifacts = w.store.artifacts
  queue : w'.store.queue = w.store.queue
  dlq : w'.store.dlq = w.store.dlq
  sent : w'.store.sent = w.store.sent
  results : w'.results = w.results

/-- The transitions, each with the guard it has passed and the world it leaves. -/
inductive StepCase (cfg : Config) (w : World σ η) : Label σ η → World σ η → Prop
  /-- A request that its first transaction refuses is answered at once. -/
  | createRefused {h payload r itemIds now} (hidle : w.handlers h = none) :
      StepCase cfg w (.create h payload r itemIds now) w
  | cancelRefused {h r} (hidle : w.handlers h = none) : StepCase cfg w (.cancel h r) w
  | replayRefused {h rid} (hidle : w.handlers h = none) : StepCase cfg w (.replay h rid) w
  | created {h payload r itemIds now w'} (hc : Created cfg w h payload r itemIds now w') :
      StepCase cfg w (.create h payload r itemIds now) w'
  | cancelling {h r} (hidle : w.handlers h = none) (hc : cancelRead w.store.db r = .ok true) :
      StepCase cfg w (.cancel h r) (w.setHandler h (some (.cancelCommit r)))
  | replaying {h rid r} (hidle : w.handlers h = none) (hc : replayReadItem w.store.db rid = .ok r) :
      StepCase cfg w (.replay h rid) (w.setHandler h (some (.replayReadRun rid r)))
  | handled {h now x} (hx : w.handlers h = some x) :
      StepCase cfg w (.handler h now) ({ w with store := (stepHandler w.store now x).1 }.setHandler h
        (stepHandler w.store now x).2)
  | dropped {h x} (hx : w.handlers h = some x) : StepCase cfg w (.drop h) (w.setHandler h none)
  | delivered {s rid} (hidle : w.workers s = none) (hq : rid ∈ w.store.queue) :
      StepCase cfg w (.deliver s rid)
        ({ w with store := { w.store with queue := w.store.queue.erase rid } }.setWorker s
          (some ⟨rid, .start⟩))
  | redelivered {s rid} (hidle : w.workers s = none) (hq : rid ∈ w.store.sent) :
      StepCase cfg w (.redeliver s rid) (w.setWorker s (some ⟨rid, .start⟩))
  | executed {s c e} (he : w.workers s = some e) :
      StepCase cfg w (.exec s c) (w.afterExec s e.rid
        (executeRunItem cfg c e.rid w.store e.phase).1
        (executeRunItem cfg c e.rid w.store e.phase).2)
  | died {s e} (he : w.workers s = some e) : StepCase cfg w (.crash s) (w.setWorker s none)

/-- **There are no others.** -/
theorem step_cases {cfg : Config} {w w' : World σ η} {l : Label σ η} (hs : step cfg w l = some w') :
    StepCase cfg w l w' := by
  cases l with
  | create h payload r itemIds now =>
    simp only [step] at hs
    split at hs
    · exact absurd hs (by simp)
    · rename_i hbusy
      have hidle : w.handlers h = none := by simpa using hbusy
      split at hs
      · obtain rfl := Option.some.inj hs
        exact .createRefused hidle
      · rename_i pairs hp
        split at hs
        · obtain rfl := Option.some.inj hs
          exact .createRefused hidle
        · rename_i db hdb
          obtain rfl := Option.some.inj hs
          exact .created
            { pairs := ⟨pairs, hp, hdb⟩, idle := hidle, workers := rfl, handlers := rfl,
              artifacts := rfl, queue := rfl, dlq := rfl, sent := rfl, results := rfl }
  | cancel h r =>
    simp only [step] at hs
    split at hs
    · exact absurd hs (by simp)
    · rename_i hbusy
      have hidle : w.handlers h = none := by simpa using hbusy
      split at hs <;> obtain rfl := Option.some.inj hs
      · exact .cancelling hidle (by assumption)
      · exact .cancelRefused hidle
  | replay h rid =>
    simp only [step] at hs
    split at hs
    · exact absurd hs (by simp)
    · rename_i hbusy
      have hidle : w.handlers h = none := by simpa using hbusy
      split at hs <;> obtain rfl := Option.some.inj hs
      · exact .replaying hidle (by assumption)
      · exact .replayRefused hidle
  | handler h now =>
    simp only [step] at hs
    cases hx : w.handlers h with
    | none => rw [hx] at hs; exact absurd hs (by simp)
    | some x =>
      rw [hx] at hs
      obtain rfl := Option.some.inj hs
      exact .handled hx
  | drop h =>
    simp only [step] at hs
    split at hs
    · exact absurd hs (by simp)
    · rename_i hne
      obtain ⟨x, hx⟩ := Option.ne_none_iff_exists'.mp hne
      obtain rfl := Option.some.inj hs
      exact .dropped hx
  | deliver s rid =>
    simp only [step] at hs
    split at hs
    · rename_i hc
      obtain rfl := Option.some.inj hs
      exact .delivered hc.1 hc.2
    · exact absurd hs (by simp)
  | redeliver s rid =>
    simp only [step] at hs
    split at hs
    · rename_i hc
      obtain rfl := Option.some.inj hs
      exact .redelivered hc.1 hc.2
    · exact absurd hs (by simp)
  | exec s c =>
    simp only [step] at hs
    cases he : w.workers s with
    | none => rw [he] at hs; exact absurd hs (by simp)
    | some e =>
      rw [he] at hs
      obtain rfl := Option.some.inj hs
      exact .executed he
  | crash s =>
    simp only [step] at hs
    split at hs
    · exact absurd hs (by simp)
    · rename_i hne
      obtain ⟨e, he⟩ := Option.ne_none_iff_exists'.mp hne
      obtain rfl := Option.some.inj hs
      exact .died he

/-- Taking an execution's step is taking the step of `executeRunItem`. -/
theorem step_exec {cfg : Config} {w w' : World σ η} {s : σ} {c : Choice}
    (hs : step cfg w (.exec s c) = some w') :
    ∃ e, w.workers s = some e ∧
      w' = w.afterExec s e.rid (executeRunItem cfg c e.rid w.store e.phase).1
        (executeRunItem cfg c e.rid w.store e.phase).2 := by
  cases step_cases hs with
  | executed he => exact ⟨_, he, rfl⟩

/-- Taking a request's step is taking the step of `stepHandler`. -/
theorem step_handler_eq {cfg : Config} {w w' : World σ η} {h : η} {now : Timestamp}
    (hs : step cfg w (.handler h now) = some w') :
    ∃ x, w.handlers h = some x ∧
      w' = ({ w with store := (stepHandler w.store now x).1 }.setHandler h
        (stepHandler w.store now x).2) := by
  cases step_cases hs with
  | handled hx => exact ⟨_, hx, rfl⟩

/-- A `create` request is refused without an effect, or it adds a run. -/
theorem step_create {cfg : Config} {w w' : World σ η} {h : η} {payload : EvalRunCreate} {r : RunId}
    {itemIds : List ItemId} {now : Timestamp}
    (hs : step cfg w (.create h payload r itemIds now) = some w') :
    w' = w ∨ Created cfg w h payload r itemIds now w' := by
  cases step_cases hs with
  | createRefused => exact Or.inl rfl
  | created hc => exact Or.inr hc

/-- The two tables after an accepted creation. -/
theorem insertRun_tables {db db' : Db} {payload : EvalRunCreate} {pairs : List (TaskId × EndpointId)}
    {r : RunId} {itemIds : List ItemId} {now : Timestamp}
    (h : insertRun db payload pairs r itemIds now = some db') :
    ∃ run : EvalRun, ∃ rows : List (ItemId × RunItem),
      db.runs.insertAll [(r, run)] = some db'.runs ∧ db.items.insertAll rows = some db'.items ∧
      db'.grades = db.grades ∧ db'.reviews = db.reviews ∧
      rows.map Prod.fst = itemIds ∧
      (∀ x ∈ rows, ∃ p ∈ pairs, x.2 =
        { evalRunId := r, taskId := p.1, modelEndpointId := p.2 }) ∧
      run.totalCostUsd = 0 ∧ run.totalTokens = 0 ∧ run.error = none ∧
      (if itemIds = [] then run.status = .completed ∧ run.completedAt = some now
        else run.status = .running ∧ run.completedAt = none) := by
  unfold insertRun at h
  split at h
  · exact absurd h (by simp)
  · rename_i hlen
    simp only [ne_eq, not_not] at hlen
    simp only [Option.bind_eq_bind, Option.bind_eq_some_iff, Option.pure_def,
      Option.some.injEq] at h
    obtain ⟨runs, hruns, items, hitems, rfl⟩ := h
    have hnil : itemIds = [] ↔ pairs = [] := by
      rw [← List.length_eq_zero_iff, ← List.length_eq_zero_iff, hlen]
    refine ⟨_, _, hruns, hitems, rfl, rfl, ?_, ?_, ?_, ?_, ?_, ?_⟩
    · rw [List.map_fst_zip]
      simp [hlen]
    · rintro ⟨i, row⟩ hx
      obtain ⟨p, hp, rfl⟩ := List.mem_map.mp (List.of_mem_zip hx).2
      exact ⟨p, hp, rfl⟩
    · split <;> rfl
    · split <;> rfl
    · split <;> rfl
    · by_cases hp : pairs = []
      · simp [hp, hnil.mpr hp]
      · have hi : itemIds ≠ [] := fun h => hp (hnil.mp h)
        simp [hp, hi]

/-! ## 3. Item rows -/

/-- The text an execution fails its item with, at the three steps that do so unconditionally. -/
def Pc.failsWith : Pc → Option String
  | .skipAborted => some "eval run aborted"
  | .markNonRetryable e => some e
  | .markGradingFailed e => some (gradingError e)
  | _ => none

/-- How the row of item `i` can change over the transition of a label. -/
inductive ItemChange (cfg : Config) (w : World σ η) (i : ItemId) (row : RunItem) :
    Label σ η → RunItem → Prop
  /-- Nobody touches it. -/
  | keep {l} : ItemChange cfg w i row l row
  | markRunning {s c v a} (hw : w.workers s = some ⟨i, .at v (.markRunning a)⟩) :
      ItemChange cfg w i row (.exec s c)
        { row with status := .running, attemptCount := row.attemptCount + 1 }
  | markFailed {s c v pc error} (hw : w.workers s = some ⟨i, .at v pc⟩)
      (hpc : pc.failsWith = some error) :
      ItemChange cfg w i row (.exec s c) { row with status := .failed, error := some error }
  | markDeadLettered {s c v e} (hw : w.workers s = some ⟨i, .at v (.markDeadLettered e)⟩) :
      ItemChange cfg w i row (.exec s c) { row with status := .deadLettered, error := some e }
  | markCancelled {s c v pc} (hw : w.workers s = some ⟨i, .at v pc⟩)
      (hpc : pc = .skipCancelled ∨ pc = .dropCancelled) (hne : row.status ≠ .succeeded) :
      ItemChange cfg w i row (.exec s c)
        { row with status := .failed, error := some "eval run cancelled" }
  /-- The guarded finalising update. -/
  | finalise {s c v r} (hw : w.workers s = some ⟨i, .at v (.finalise r)⟩)
      (hrun : row.status = .running) :
      ItemChange cfg w i row (.exec s c) (finalisedRow i v r row)
  /-- A spend abort by an execution of some item of the run. -/
  | abort {s c j v r} (hw : w.workers s = some ⟨j, .at v (.abortCheck r)⟩)
      (hr : row.evalRunId = v.evalRunId)
      (hover : ∃ run, w.store.db.runs.get v.evalRunId = some run ∧ overBudget cfg.spendLimit run = true)
      (hq : row.status = .queued) :
      ItemChange cfg w i row (.exec s c)
        { row with status := .failed, error := some "aborted: eval run spend limit exceeded" }
  | cancel {h now} (hh : w.handlers h = some (.cancelCommit row.evalRunId))
      (hq : row.status = .queued) :
      ItemChange cfg w i row (.handler h now)
        { row with status := .failed, error := some "eval run cancelled" }
  | requeue {h now r} (hh : w.handlers h = some (.replayCommit i r))
      (hd : row.status = .deadLettered) :
      ItemChange cfg w i row (.handler h now) { row with status := .queued, error := none }

/-- An abort that happened found the run over budget. -/
theorem abortOverBudget_fst {db : Db} {r : RunId} {limit : SpendLimit} {now : Timestamp}
    (h : (abortOverBudget db r limit now).2 = true) :
    ∃ run, db.runs.get r = some run ∧ overBudget limit run = true := by
  unfold abortOverBudget at h
  split at h
  · rename_i hhit
    exact Db.runsHit_ne_zero.mp (by omega)
  · exact absurd h (by simp)

theorem abortOverBudget_iff {db : Db} {r : RunId} {limit : SpendLimit} {now : Timestamp} :
    (abortOverBudget db r limit now).2 = true ↔
      ∃ run, db.runs.get r = some run ∧ overBudget limit run = true := by
  refine ⟨abortOverBudget_fst, fun hfind => ?_⟩
  have hone : db.runsHit r (overBudget limit) = 1 := Table.count_key_eq_one.mpr hfind
  simp [abortOverBudget, hone]

/-- An abort rewrites the queued items of its run. -/
theorem abortOverBudget_item {db : Db} {r : RunId} {limit : SpendLimit} {now : Timestamp}
    (h : (abortOverBudget db r limit now).2 = true) (i : ItemId) :
    (abortOverBudget db r limit now).1.items.get i =
      (db.items.get i).map fun row =>
        if row.evalRunId = r ∧ row.status = .queued then
          { row with status := .failed, error := some "aborted: eval run spend limit exceeded" }
        else row := by
  unfold abortOverBudget at h ⊢
  split
  · simp
  · rename_i hn
    simp [hn] at h

@[simp] theorem maybeCompleteRun_items (db : Db) (r : RunId) (now : Timestamp) :
    (maybeCompleteRun db r now).items = db.items := by
  unfold maybeCompleteRun
  split <;> rfl

/-- The finalising transaction hits exactly a running row. -/
theorem finaliseRunItem_iff {db : Db} {rid : ItemId} {v : Loaded} {r : CompletionResult} :
    (finaliseRunItem db rid v r).2 = true ↔
      ∃ row, db.items.get rid = some row ∧ row.status = .running := by
  have hhit : db.itemsHit rid (fun row => row.status == .running) ≠ 0 ↔ _ := Db.itemsHit_ne_zero
  simp only [beq_iff_eq] at hhit
  rw [← hhit]
  unfold finaliseRunItem
  split <;> simp_all

/-- What the finalising transaction does to the item rows. -/
theorem finaliseRunItem_item {db : Db} {rid : ItemId} {v : Loaded} {res : CompletionResult}
    (h : (finaliseRunItem db rid v res).2 = true) (i : ItemId) :
    (finaliseRunItem db rid v res).1.items.get i =
      (db.items.get i).map fun row =>
        if i = rid ∧ row.status = .running then finalisedRow rid v res row else row := by
  unfold finaliseRunItem at h ⊢
  split
  · rename_i hn
    simp [hn] at h
  · simp

/-- Apart from the abort, an execution writes no item row but its own. -/
theorem stepRunItem_other {cfg : Config} {c : Choice} {rid : ItemId} {v : Loaded} {m : Backend}
    {pc : Pc} (hpc : ∀ r, pc ≠ .abortCheck r) {i : ItemId} (hi : i ≠ rid) :
    (stepRunItem cfg c rid v m pc).1.db.items.get i = m.db.items.get i := by
  have hupd : ∀ g f, (m.db.updateItem rid g f).items.get i = m.db.items.get i := by
    intro g f
    simp [hi]
  cases pc with
  | skipCancelled | dropCancelled | skipAborted | markRunning | markNonRetryable | markDeadLettered
    | markGradingFailed => exact hupd _ _
  | publishDeadLetter | writeArtifact => rfl
  | complete a | judge a =>
    simp only [stepRunItem]
    split <;> rfl
  | checkCancelled r | gradeRead r | reviewCheck gs reason | gradeCommit gs review =>
    simp only [stepRunItem]
    split <;> rfl
  | maybeComplete ret => simp [stepRunItem]
  | abortCheck r => exact absurd rfl (hpc r)
  | finalise r =>
    simp only [stepRunItem, finaliseRunItem]
    split
    · rfl
    · exact hupd _ _

/-- The spend abort fails the queued items of the run, whoever they belong to. -/
theorem stepRunItem_abort {σ η : Type}
    {cfg : Config} {w : World σ η} {s : σ} {c : Choice} {rid : ItemId}
    {v : Loaded} {r : CompletionResult} (he : w.workers s = some ⟨rid, .at v (.abortCheck r)⟩)
    {i : ItemId} {row : RunItem} (hrow : w.store.db.items.get i = some row) :
    ∃ row', (stepRunItem cfg c rid v w.store (.abortCheck r)).1.db.items.get i = some row' ∧
      ItemChange cfg w i row (.exec s c) row' := by
  simp only [stepRunItem]
  split
  · rename_i habort
    simp only [abortOverBudget_item habort, hrow, Option.map_some]
    by_cases hq : row.evalRunId = v.evalRunId ∧ row.status = .queued
    · rw [if_pos hq]
      exact ⟨_, rfl, .abort he hq.1 (abortOverBudget_iff.mp habort) hq.2⟩
    · rw [if_neg hq]
      exact ⟨_, rfl, .keep⟩
  · exact ⟨row, hrow, .keep⟩

/-- What an execution's step does to an item row, its own or another's. -/
theorem stepRunItem_item {σ η : Type}
    {cfg : Config} {w : World σ η} {s : σ} {c : Choice} {rid : ItemId}
    {v : Loaded} {pc : Pc} (he : w.workers s = some ⟨rid, .at v pc⟩) {i : ItemId} {row : RunItem}
    (hrow : w.store.db.items.get i = some row) :
    ∃ row', (stepRunItem cfg c rid v w.store pc).1.db.items.get i = some row' ∧
      ItemChange cfg w i row (.exec s c) row' := by
  by_cases hi : i = rid
  · -- the execution's own item, step by step
    subst hi
    cases pc with
    | skipCancelled =>
      by_cases hne : row.status = .succeeded
      · exact ⟨row, by simp [stepRunItem, markCancelled, hrow, hne], .keep⟩
      · exact ⟨_, by simp [stepRunItem, markCancelled, hrow, hne],
          .markCancelled he (Or.inl rfl) hne⟩
    | dropCancelled =>
      by_cases hne : row.status = .succeeded
      · exact ⟨row, by simp [stepRunItem, markCancelled, hrow, hne], .keep⟩
      · exact ⟨_, by simp [stepRunItem, markCancelled, hrow, hne],
          .markCancelled he (Or.inr rfl) hne⟩
    | skipAborted | markNonRetryable | markGradingFailed =>
      exact ⟨_, by simp [stepRunItem, markFailed, hrow], .markFailed he rfl⟩
    | markRunning a => exact ⟨_, by simp [stepRunItem, markRunning, hrow], .markRunning he⟩
    | markDeadLettered e =>
      exact ⟨_, by simp [stepRunItem, markDeadLettered, hrow], .markDeadLettered he⟩
    | finalise r =>
      by_cases hrun : row.status = .running
      · have hhit := finaliseRunItem_iff (v := v) (r := r).mpr ⟨row, hrow, hrun⟩
        refine ⟨_, ?_, .finalise he hrun⟩
        simp only [stepRunItem, hhit, if_true]
        rw [finaliseRunItem_item hhit, hrow, Option.map_some, if_pos ⟨rfl, hrun⟩]
      · -- the guarded update misses, and with it the rollup is not made
        have hmiss : (finaliseRunItem w.store.db i v r).2 = false := by
          rw [Bool.eq_false_iff]
          intro hhit
          obtain ⟨row', hrow', hrun'⟩ := finaliseRunItem_iff.mp hhit
          rw [hrow] at hrow'
          exact hrun (Option.some.inj hrow' ▸ hrun')
        exact ⟨row, by simp [stepRunItem, hmiss, hrow], .keep⟩
    | abortCheck r => exact stepRunItem_abort he hrow
    | publishDeadLetter | writeArtifact => exact ⟨row, hrow, .keep⟩
    | complete | checkCancelled | gradeRead | judge | reviewCheck | gradeCommit =>
      refine ⟨row, ?_, .keep⟩
      simp only [stepRunItem]
      split <;> exact hrow
    | maybeComplete ret => exact ⟨row, by simp [stepRunItem, hrow], .keep⟩
  · -- another's: only the abort reaches it
    by_cases hpc : ∃ r, pc = .abortCheck r
    · obtain ⟨r, rfl⟩ := hpc
      exact stepRunItem_abort he hrow
    · have hpc' : ∀ r, pc ≠ .abortCheck r := fun r h => hpc ⟨r, h⟩
      exact ⟨row, by rw [stepRunItem_other hpc' hi, hrow], .keep⟩

/-- What a request's step does to an item row. -/
theorem stepHandler_item {σ η : Type}
    {cfg : Config} {w : World σ η} {h : η} {now : Timestamp} {x : Handler}
    (hx : w.handlers h = some x) {i : ItemId} {row : RunItem}
    (hrow : w.store.db.items.get i = some row) :
    ∃ row', (stepHandler w.store now x).1.db.items.get i = some row' ∧
      ItemChange cfg w i row (.handler h now) row' := by
  cases x with
  | createEnqueue pending =>
    refine ⟨row, ?_, .keep⟩
    cases pending <;> exact hrow
  | cancelCommit r =>
    by_cases hc : row.evalRunId = r ∧ row.status = .queued
    · obtain ⟨rfl, hq⟩ := hc
      exact ⟨_, by simp [stepHandler, cancelEvalRun, hrow, hq], .cancel hx hq⟩
    · exact ⟨row, by simp [stepHandler, cancelEvalRun, hrow, hc], .keep⟩
  | replayReadRun rid r =>
    refine ⟨row, ?_, .keep⟩
    simp only [stepHandler]
    split <;> exact hrow
  | replayCommit rid r =>
    by_cases hc : i = rid ∧ row.status = .deadLettered
    · obtain ⟨rfl, hd⟩ := hc
      exact ⟨_, by simp [stepHandler, replayRunItem, reopenRun, requeueItem, hrow, hd],
        .requeue hx hd⟩
    · exact ⟨row, by simp [stepHandler, replayRunItem, reopenRun, requeueItem, hrow, hc], .keep⟩
  | replayEnqueue rid => exact ⟨row, hrow, .keep⟩

/-- An execution adds no item and no run. -/
theorem executeRunItem_keys (cfg : Config) (c : Choice) (rid : ItemId) (m : Backend) (p : Phase) :
    (executeRunItem cfg c rid m p).1.db.items.keys = m.db.items.keys ∧
      (executeRunItem cfg c rid m p).1.db.runs.keys = m.db.runs.keys := by
  have hupd : ∀ g f, (m.db.updateItem rid g f).items.keys = m.db.items.keys := by
    intro g f
    simp [Db.updateItem]
  cases p with
  | start => exact ⟨rfl, rfl⟩
  | «at» v pc =>
    cases pc with
    | skipCancelled | dropCancelled | skipAborted | markRunning | markNonRetryable
      | markDeadLettered | markGradingFailed => exact ⟨hupd _ _, rfl⟩
    | publishDeadLetter | writeArtifact => exact ⟨rfl, rfl⟩
    | complete | judge | checkCancelled | gradeRead | reviewCheck | gradeCommit =>
      simp only [executeRunItem, stepRunItem]
      split <;> exact ⟨rfl, rfl⟩
    | maybeComplete ret =>
      simp only [executeRunItem, stepRunItem, maybeCompleteRun, completeIfRunning,
        failIfDeadLetter]
      split <;> simp [Db.updateRun]
    | abortCheck r =>
      simp only [executeRunItem, stepRunItem, abortOverBudget]
      split
      · simp [Db.updateItemsOf, Db.updateRun]
      · exact ⟨rfl, rfl⟩
    | finalise r =>
      simp only [executeRunItem, stepRunItem, finaliseRunItem]
      split
      · exact ⟨rfl, rfl⟩
      · exact ⟨hupd _ _, by simp [Db.updateItem, Db.updateRun]⟩

/-- Nor does a request after its first transaction. -/
theorem stepHandler_keys (m : Backend) (now : Timestamp) (x : Handler) :
    (stepHandler m now x).1.db.items.keys = m.db.items.keys ∧
      (stepHandler m now x).1.db.runs.keys = m.db.runs.keys := by
  cases x with
  | createEnqueue pending => cases pending <;> exact ⟨rfl, rfl⟩
  | cancelCommit r => simp [stepHandler, cancelEvalRun, Db.updateItemsOf, Db.updateRun]
  | replayReadRun rid r =>
    simp only [stepHandler]
    split <;> exact ⟨rfl, rfl⟩
  | replayCommit rid r =>
    simp [stepHandler, replayRunItem, reopenRun, requeueItem, Db.updateItem, Db.updateRun]
  | replayEnqueue rid => exact ⟨rfl, rfl⟩

/-- A label by which no committed transaction happens. -/
def Label.isQuiet : Label σ η → Bool
  | .create .. | .handler .. | .exec .. => false
  | _ => true

/-- Such a label leaves database, artifacts and notices alone. -/
theorem step_quiet {cfg : Config} {w w' : World σ η} {l : Label σ η} (hs : step cfg w l = some w')
    (hl : l.isQuiet = true) :
    w'.store.db = w.store.db ∧ w'.store.artifacts = w.store.artifacts ∧
      w'.store.dlq = w.store.dlq ∧ w'.store.sent = w.store.sent ∧ w'.results = w.results := by
  cases step_cases hs with
  | createRefused | created | handled | executed => exact absurd hl (by simp [Label.isQuiet])
  | cancelRefused | replayRefused | cancelling | replaying | dropped | delivered | redelivered
    | died => exact ⟨rfl, rfl, rfl, rfl, rfl⟩

/-- **The list of changes is complete**: rows stay, and change in these ways only. -/
theorem step_item {cfg : Config} {w w' : World σ η} {l : Label σ η} (hs : step cfg w l = some w')
    {i : ItemId} {row : RunItem} (hrow : w.store.db.items.get i = some row) :
    ∃ row', w'.store.db.items.get i = some row' ∧ ItemChange cfg w i row l row' := by
  by_cases hl : l.isQuiet = true
  · exact ⟨row, by rw [(step_quiet hs hl).1, hrow], .keep⟩
  cases l with
  | create h payload r itemIds now =>
    refine ⟨row, ?_, .keep⟩
    rcases step_create hs with rfl | hc
    · exact hrow
    · obtain ⟨pairs, -, hins⟩ := hc.pairs
      obtain ⟨run, rows, -, hitems, -⟩ := insertRun_tables hins
      exact (Table.get_insertAll_some hitems).mpr (Or.inl hrow)
  | handler h now =>
    obtain ⟨x, hx, rfl⟩ := step_handler_eq hs
    exact stepHandler_item hx hrow
  | exec s c =>
    obtain ⟨⟨rid, p⟩, he, rfl⟩ := step_exec hs
    simp only [World.afterExec_store]
    cases p with
    | start => exact ⟨row, hrow, .keep⟩
    | «at» v pc => exact stepRunItem_item he hrow
  | cancel | replay | drop | deliver | redeliver | crash => exact absurd rfl hl

/-- The pairs of a fan-out are tasks and endpoints of the catalog. -/
theorem fanOut_mem {cat : Catalog} {payload : EvalRunCreate} {pairs : List (TaskId × EndpointId)}
    (h : fanOut cat payload = .ok pairs) {p : TaskId × EndpointId} (hp : p ∈ pairs) :
    (∃ task, cat.tasks.get p.1 = some task) ∧ ∃ e, cat.endpoints.get p.2 = some e := by
  simp only [fanOut] at h
  split at h
  · exact absurd h (by simp)
  · split at h
    · exact absurd h (by simp)
    · obtain rfl := Except.ok.inj h
      obtain ⟨t, ht, hp⟩ := List.mem_flatMap.mp hp
      obtain ⟨e, he, rfl⟩ := List.mem_map.mp hp
      refine ⟨⟨t.2, (Table.mem_rows_iff _).mp (List.mem_of_mem_filter ht)⟩, ?_⟩
      cases hget : cat.endpoints.get e with
      | some x => exact ⟨x, rfl⟩
      | none =>
        exact absurd (List.mem_of_mem_filter he) ((Table.get_eq_none_iff _).mp hget)

/-- The row of a freshly created item. -/
def RunItem.IsNew (cat : Catalog) (row : RunItem) (r : RunId) : Prop :=
  ∃ p : TaskId × EndpointId, row = { evalRunId := r, taskId := p.1, modelEndpointId := p.2 } ∧
    (∃ task, cat.tasks.get p.1 = some task) ∧ ∃ e, cat.endpoints.get p.2 = some e

/-- The same about two rows that are known. -/
theorem itemChange {cfg : Config} {w w' : World σ η} {l : Label σ η} (hs : step cfg w l = some w')
    {i : ItemId} {row row' : RunItem} (hrow : w.store.db.items.get i = some row)
    (hrow' : w'.store.db.items.get i = some row') : ItemChange cfg w i row l row' := by
  obtain ⟨row₁, hrow₁, hch⟩ := step_item hs hrow
  exact Option.some.inj (hrow₁.symm.trans hrow') ▸ hch

/-- A row that appears was inserted by a `create`. -/
theorem step_item_new {cfg : Config} {w w' : World σ η} {l : Label σ η}
    (hs : step cfg w l = some w') {i : ItemId} {row' : RunItem}
    (hrow' : w'.store.db.items.get i = some row') (hnone : w.store.db.items.get i = none) :
    ∃ h payload r itemIds now, l = .create h payload r itemIds now ∧
      Created cfg w h payload r itemIds now w' ∧ i ∈ itemIds ∧ row'.IsNew cfg.catalog r := by
  by_cases hl : l.isQuiet = true
  · rw [(step_quiet hs hl).1, hnone] at hrow'
    exact absurd hrow' (by simp)
  have hkeys : ∀ db : Db, db.items.keys = w.store.db.items.keys → db.items.get i ≠ some row' := by
    intro db hk
    rw [(Table.get_eq_none_iff _).mpr (hk ▸ (Table.get_eq_none_iff _).mp hnone)]
    simp
  cases l with
  | create h payload r itemIds now =>
    rcases step_create hs with rfl | hc
    · rw [hnone] at hrow'
      exact absurd hrow' (by simp)
    · obtain ⟨pairs, hfan, hins⟩ := hc.pairs
      obtain ⟨run, rows, -, hitems, -, -, hids, hnew, -⟩ := insertRun_tables hins
      rcases (Table.get_insertAll_some hitems).mp hrow' with hold | hmem
      · rw [hnone] at hold
        exact absurd hold (by simp)
      · obtain ⟨p, hpairs, hp⟩ := hnew _ hmem
        refine ⟨h, payload, r, itemIds, now, rfl, hc, ?_, p, hp, fanOut_mem hfan hpairs⟩
        rw [← hids]
        exact List.mem_map.mpr ⟨_, hmem, rfl⟩
  | handler h now =>
    obtain ⟨x, hx, rfl⟩ := step_handler_eq hs
    exact absurd hrow' (hkeys _ (stepHandler_keys _ _ _).1)
  | exec s c =>
    obtain ⟨e, he, rfl⟩ := step_exec hs
    rw [World.afterExec_store] at hrow'
    exact absurd hrow' (hkeys _ (executeRunItem_keys _ _ _ _ _).1)
  | cancel | replay | drop | deliver | redeliver | crash => exact absurd rfl hl

/-! ## 4. Run rows -/

/-- How the row of run `r` can change over the transition of a label. -/
inductive RunChange (cfg : Config) (w : World σ η) (r : RunId) (run : EvalRun) :
    Label σ η → EvalRun → Prop
  /-- Nobody touches it. -/
  | keep {l} : RunChange cfg w r run l run
  /-- The rollup behind a guarded update that hit. -/
  | rollup {s c i v res row} (hw : w.workers s = some ⟨i, .at v (.finalise res)⟩)
      (hv : v.evalRunId = r) (hrow : w.store.db.items.get i = some row)
      (hrun : row.status = .running) :
      RunChange cfg w r run (.exec s c) (rollup v res run)
  | abort {s c i v res} (hw : w.workers s = some ⟨i, .at v (.abortCheck res)⟩)
      (hv : v.evalRunId = r) (hover : overBudget cfg.spendLimit run = true) :
      RunChange cfg w r run (.exec s c)
        { run with
          status := .failed, completedAt := some c.now, error := some cfg.spendLimit.error }
  /-- The completion check, with a dead letter. -/
  | checkFailed {s c i v ret} (hw : w.workers s = some ⟨i, .at v (.maybeComplete ret)⟩)
      (hv : v.evalRunId = r) (hrem : remaining w.store.db r = 0) (hst : run.status = .running)
      (hdead : hasDeadLetter w.store.db r = true) :
      RunChange cfg w r run (.exec s c)
        { run with status := .failed, completedAt := some c.now }
  /-- The completion check, without one. -/
  | checkCompleted {s c i v ret} (hw : w.workers s = some ⟨i, .at v (.maybeComplete ret)⟩)
      (hv : v.evalRunId = r) (hrem : remaining w.store.db r = 0) (hst : run.status = .running)
      (hdead : hasDeadLetter w.store.db r = false) :
      RunChange cfg w r run (.exec s c)
        { run with status := .completed, completedAt := some c.now }
  | cancel {h now} (hh : w.handlers h = some (.cancelCommit r))
      (hst : run.status = .pending ∨ run.status = .running) :
      RunChange cfg w r run (.handler h now)
        { run with status := .cancelled, completedAt := some now }
  | reopen {h now i} (hh : w.handlers h = some (.replayCommit i r)) (hst : run.status = .failed) :
      RunChange cfg w r run (.handler h now)
        { run with status := .running, completedAt := none, error := none }

/-- What the completion check does to a run row. -/
theorem maybeCompleteRun_get (db : Db) (r : RunId) (now : Timestamp) (r' : RunId) :
    (maybeCompleteRun db r now).runs.get r' =
      (db.runs.get r').map fun run =>
        if r' = r ∧ run.status = .running ∧ remaining db r = 0 then
          { run with
            status := if hasDeadLetter db r then .failed else .completed
            completedAt := some now }
        else run := by
  unfold maybeCompleteRun
  split
  · rename_i hrem
    simp only [completeIfRunning, failIfDeadLetter, Db.updateRun_get, Option.map_map]
    cases db.runs.get r' with
    | none => rfl
    | some run =>
      by_cases hr : r' = r
      · cases hst : run.status <;> cases hd : hasDeadLetter db r <;>
          simp [hr, hst, hrem]
      · simp [hr]
  · rename_i hrem
    cases db.runs.get r' <;> simp [hrem]

/-- What the abort does to a run row. -/
theorem abortOverBudget_run {db : Db} {r : RunId} {limit : SpendLimit} {now : Timestamp}
    (h : (abortOverBudget db r limit now).2 = true) (r' : RunId) :
    (abortOverBudget db r limit now).1.runs.get r' =
      (db.runs.get r').map fun run =>
        if r' = r ∧ overBudget limit run = true then
          { run with status := .failed, completedAt := some now, error := some limit.error }
        else run := by
  unfold abortOverBudget at h ⊢
  split
  · simp
  · rename_i hn
    simp [hn] at h

/-- What the finalising transaction does to a run row. -/
theorem finaliseRunItem_run {db : Db} {rid : ItemId} {v : Loaded} {res : CompletionResult}
    (h : (finaliseRunItem db rid v res).2 = true) (r' : RunId) :
    (finaliseRunItem db rid v res).1.runs.get r' =
      (db.runs.get r').map fun run => if r' = v.evalRunId then rollup v res run else run := by
  unfold finaliseRunItem at h ⊢
  split
  · rename_i hn
    simp [hn] at h
  · simp

/-- What an execution's step does to a run row. -/
theorem stepRunItem_run {σ η : Type}
    {cfg : Config} {w : World σ η} {s : σ} {c : Choice} {rid : ItemId}
    {v : Loaded} {pc : Pc} (he : w.workers s = some ⟨rid, .at v pc⟩) {r : RunId} {run : EvalRun}
    (hr : w.store.db.runs.get r = some run) :
    ∃ run', (stepRunItem cfg c rid v w.store pc).1.db.runs.get r = some run' ∧
      RunChange cfg w r run (.exec s c) run' := by
  cases pc with
  | skipCancelled | dropCancelled | skipAborted | markRunning | markNonRetryable | markDeadLettered
    | markGradingFailed => exact ⟨run, hr, .keep⟩
  | publishDeadLetter | writeArtifact => exact ⟨run, hr, .keep⟩
  | complete a | judge a =>
    refine ⟨run, ?_, .keep⟩
    simp only [stepRunItem]
    split <;> exact hr
  | checkCancelled r | gradeRead r | reviewCheck gs reason | gradeCommit gs review =>
    refine ⟨run, ?_, .keep⟩
    simp only [stepRunItem]
    split <;> exact hr
  | finalise res =>
    simp only [stepRunItem]
    split
    · rename_i hhit
      obtain ⟨row, hrow, hrun⟩ := finaliseRunItem_iff.mp hhit
      rw [finaliseRunItem_run hhit, hr, Option.map_some]
      by_cases hv : r = v.evalRunId
      · rw [if_pos hv]
        exact ⟨_, rfl, .rollup he hv.symm hrow hrun⟩
      · rw [if_neg hv]
        exact ⟨_, rfl, .keep⟩
    · exact ⟨run, hr, .keep⟩
  | abortCheck res =>
    simp only [stepRunItem]
    split
    · rename_i habort
      rw [abortOverBudget_run habort, hr, Option.map_some]
      by_cases hv : r = v.evalRunId ∧ overBudget cfg.spendLimit run = true
      · rw [if_pos hv]
        exact ⟨_, rfl, .abort he hv.1.symm hv.2⟩
      · rw [if_neg hv]
        exact ⟨_, rfl, .keep⟩
    · exact ⟨run, hr, .keep⟩
  | maybeComplete ret =>
    simp only [stepRunItem]
    rw [maybeCompleteRun_get, hr, Option.map_some]
    by_cases hv : r = v.evalRunId ∧ run.status = .running ∧ remaining w.store.db v.evalRunId = 0
    · rw [if_pos hv]
      obtain ⟨rfl, hst, hrem⟩ := hv
      cases hd : hasDeadLetter w.store.db v.evalRunId with
      | true => exact ⟨_, rfl, .checkFailed he rfl hrem hst hd⟩
      | false => exact ⟨_, rfl, .checkCompleted he rfl hrem hst hd⟩
    · rw [if_neg hv]
      exact ⟨_, rfl, .keep⟩

/-- What a request's step does to a run row. -/
theorem stepHandler_run {σ η : Type}
    {cfg : Config} {w : World σ η} {h : η} {now : Timestamp} {x : Handler}
    (hx : w.handlers h = some x) {r : RunId} {run : EvalRun}
    (hr : w.store.db.runs.get r = some run) :
    ∃ run', (stepHandler w.store now x).1.db.runs.get r = some run' ∧
      RunChange cfg w r run (.handler h now) run' := by
  cases x with
  | createEnqueue pending =>
    refine ⟨run, ?_, .keep⟩
    cases pending <;> exact hr
  | cancelCommit r' =>
    by_cases hc : r = r' ∧ (run.status = .pending ∨ run.status = .running)
    · obtain ⟨rfl, hst⟩ := hc
      exact ⟨_, by simp [stepHandler, cancelEvalRun, hr, hst], .cancel hx hst⟩
    · exact ⟨run, by simp [stepHandler, cancelEvalRun, hr, hc], .keep⟩
  | replayReadRun rid r' =>
    refine ⟨run, ?_, .keep⟩
    simp only [stepHandler]
    split <;> exact hr
  | replayCommit rid r' =>
    by_cases hc : r = r' ∧ run.status = .failed
    · obtain ⟨rfl, hst⟩ := hc
      exact ⟨_, by simp [stepHandler, replayRunItem, reopenRun, requeueItem, hr, hst],
        .reopen hx hst⟩
    · exact ⟨run, by simp [stepHandler, replayRunItem, reopenRun, requeueItem, hr, hc], .keep⟩
  | replayEnqueue rid => exact ⟨run, hr, .keep⟩

/-- **Run rows**: they stay, and change in these ways only. -/
theorem step_run {cfg : Config} {w w' : World σ η} {l : Label σ η} (hs : step cfg w l = some w')
    {r : RunId} {run : EvalRun} (hr : w.store.db.runs.get r = some run) :
    ∃ run', w'.store.db.runs.get r = some run' ∧ RunChange cfg w r run l run' := by
  by_cases hl : l.isQuiet = true
  · exact ⟨run, by rw [(step_quiet hs hl).1, hr], .keep⟩
  cases l with
  | create h payload r' itemIds now =>
    refine ⟨run, ?_, .keep⟩
    rcases step_create hs with rfl | hc
    · exact hr
    · obtain ⟨pairs, -, hins⟩ := hc.pairs
      obtain ⟨run₀, rows, hruns, -⟩ := insertRun_tables hins
      exact (Table.get_insertAll_some hruns).mpr (Or.inl hr)
  | handler h now =>
    obtain ⟨x, hx, rfl⟩ := step_handler_eq hs
    exact stepHandler_run hx hr
  | exec s c =>
    obtain ⟨⟨rid, p⟩, he, rfl⟩ := step_exec hs
    simp only [World.afterExec_store]
    cases p with
    | start => exact ⟨run, hr, .keep⟩
    | «at» v pc => exact stepRunItem_run he hr
  | cancel | replay | drop | deliver | redeliver | crash => exact absurd rfl hl

theorem runChange {cfg : Config} {w w' : World σ η} {l : Label σ η} (hs : step cfg w l = some w')
    {r : RunId} {run run' : EvalRun} (hr : w.store.db.runs.get r = some run)
    (hr' : w'.store.db.runs.get r = some run') : RunChange cfg w r run l run' := by
  obtain ⟨run₁, hr₁, hch⟩ := step_run hs hr
  exact Option.some.inj (hr₁.symm.trans hr') ▸ hch

/-- A run row that appears was inserted by a `create`, with nothing spent. -/
theorem step_run_new {cfg : Config} {w w' : World σ η} {l : Label σ η}
    (hs : step cfg w l = some w') {r : RunId} {run' : EvalRun}
    (hr' : w'.store.db.runs.get r = some run') (hnone : w.store.db.runs.get r = none) :
    ∃ h payload itemIds now, l = .create h payload r itemIds now ∧
      Created cfg w h payload r itemIds now w' ∧ run'.totalCostUsd = 0 ∧ run'.totalTokens = 0 ∧
      run'.error = none ∧ (if itemIds = [] then run'.status = .completed ∧ run'.completedAt = some now
        else run'.status = .running ∧ run'.completedAt = none) := by
  by_cases hl : l.isQuiet = true
  · rw [(step_quiet hs hl).1, hnone] at hr'
    exact absurd hr' (by simp)
  -- a transition with the old keys has added nothing
  have hkeys : ∀ db : Db, db.runs.keys = w.store.db.runs.keys → db.runs.get r ≠ some run' := by
    intro db hk
    rw [(Table.get_eq_none_iff _).mpr (hk ▸ (Table.get_eq_none_iff _).mp hnone)]
    simp
  cases l with
  | create h payload r₁ itemIds now =>
    rcases step_create hs with rfl | hc
    · rw [hnone] at hr'
      exact absurd hr' (by simp)
    · obtain ⟨pairs, -, hins⟩ := hc.pairs
      obtain ⟨run, rows, hruns, -, -, -, -, -, hcost, htok, herr, hst⟩ := insertRun_tables hins
      rcases (Table.get_insertAll_some hruns).mp hr' with hold | hmem
      · rw [hnone] at hold
        exact absurd hold (by simp)
      · simp only [List.mem_singleton, Prod.mk.injEq] at hmem
        obtain ⟨rfl, rfl⟩ := hmem
        exact ⟨h, payload, itemIds, now, rfl, hc, hcost, htok, herr, hst⟩
  | handler h now =>
    obtain ⟨x, hx, rfl⟩ := step_handler_eq hs
    exact absurd hr' (hkeys _ (stepHandler_keys _ _ _).2)
  | exec s c =>
    obtain ⟨e, he, rfl⟩ := step_exec hs
    rw [World.afterExec_store] at hr'
    exact absurd hr' (hkeys _ (executeRunItem_keys _ _ _ _ _).2)
  | cancel | replay | drop | deliver | redeliver | crash => exact absurd rfl hl

/-! ## 5. Executions and requests -/

/-- The run and the endpoint an execution goes on with after its initial read. -/
theorem startRunItem_goto {cfg : Config} {rid : ItemId} {db : Db} {p : Phase}
    (h : startRunItem cfg rid db = .goto p) :
    ∃ row task endpoint run pc, db.items.get rid = some row ∧
      cfg.catalog.tasks.get row.taskId = some task ∧
      cfg.catalog.endpoints.get row.modelEndpointId = some endpoint ∧
      db.runs.get row.evalRunId = some run ∧
      p = .at ⟨row.evalRunId, task, endpoint, row.cost, row.tokens⟩ pc ∧
      (pc = .skipCancelled ∧ run.status = .cancelled ∨
        pc = .skipAborted ∧ run.status = .failed ∨
        pc = nextAttempt cfg.retry 1 "None" ∧ run.status ≠ .cancelled ∧ run.status ≠ .failed ∧
          (row.status = .queued ∨ row.status = .deadLettered)) := by
  simp only [startRunItem, loadRunItem] at h
  cases hrow : db.items.get rid with
  | none => simp [hrow] at h
  | some row =>
    cases htask : cfg.catalog.tasks.get row.taskId with
    | none => simp [hrow, htask] at h
    | some task =>
      cases hend : cfg.catalog.endpoints.get row.modelEndpointId with
      | none => simp [hrow, htask, hend] at h
      | some endpoint =>
        cases hrun : db.runs.get row.evalRunId with
        | none => simp [hrow, htask, hend, hrun] at h
        | some run =>
          simp only [hrow, htask, hend, hrun, Option.bind_eq_bind, Option.bind_some,
            Option.pure_def] at h
          split at h
          · rename_i hc
            exact ⟨row, task, endpoint, run, _, rfl, htask, hend, hrun, (Next.goto.inj h).symm,
              Or.inl ⟨rfl, hc⟩⟩
          · rename_i hc
            split at h
            · rename_i hf
              exact ⟨row, task, endpoint, run, _, rfl, htask, hend, hrun, (Next.goto.inj h).symm,
                Or.inr (Or.inl ⟨rfl, hf⟩)⟩
            · rename_i hf
              split at h
              · exact absurd h (by simp)
              · split at h
                · exact absurd h (by simp)
                · rename_i hq
                  refine ⟨row, task, endpoint, run, _, rfl, htask, hend, hrun,
                    (Next.goto.inj h).symm, Or.inr (Or.inr ⟨rfl, hc, hf, ?_⟩)⟩
                  by_cases h1 : row.status = .queued
                  · exact Or.inl h1
                  · exact Or.inr (by by_contra h2; exact hq ⟨h1, h2⟩)

/-- Which step of an execution follows which, and what decides. -/
inductive PcStep (cfg : Config) (c : Choice) (rid : ItemId) (v : Loaded) (m : Backend) :
    Pc → Pc → Prop
  /-- `_mark_running` has no guard, so nothing keeps the provider from being called. -/
  | marked {a} : PcStep cfg c rid v m (.markRunning a) (.complete a)
  | answered {a r} (hc : c.completion = .result r) :
      PcStep cfg c rid v m (.complete a) (.checkCancelled r)
  | retry {a e} (hc : c.completion = .retryable e) (ha : a + 1 ≤ cfg.retry.maxAttempts) :
      PcStep cfg c rid v m (.complete a) (.markRunning (a + 1))
  | exhausted {a e e'} (hc : c.completion = .retryable e) (ha : cfg.retry.maxAttempts < a + 1)
      (he : nextAttempt cfg.retry (a + 1) e = .markDeadLettered e') :
      PcStep cfg c rid v m (.complete a) (.markDeadLettered e')
  | rejected {a e} (hc : c.completion = .nonRetryable e) :
      PcStep cfg c rid v m (.complete a) (.markNonRetryable e)
  /-- Every way to settle the item ends with the completion check. -/
  | failed {e} : PcStep cfg c rid v m (.markNonRetryable e)
      (.maybeComplete ⟨.item .failed, some .nonRetryable⟩)
  | deadLettered {e} : PcStep cfg c rid v m (.markDeadLettered e) .publishDeadLetter
  | noticed : PcStep cfg c rid v m .publishDeadLetter
      (.maybeComplete ⟨.item .deadLettered, some .retriesExhausted⟩)
  /-- The cancel check behind the provider call, the only one after the initial read. -/
  | cancelled {r} (hc : (m.db.runs.get v.evalRunId).map EvalRun.status = some .cancelled) :
      PcStep cfg c rid v m (.checkCancelled r) .dropCancelled
  | passed {r} (hc : (m.db.runs.get v.evalRunId).map EvalRun.status ≠ some .cancelled) :
      PcStep cfg c rid v m (.checkCancelled r) (.writeArtifact r)
  | written {r} : PcStep cfg c rid v m (.writeArtifact r) (.finalise r)
  /-- A miss ends the execution as a lost race. -/
  | won {r} (hit : (finaliseRunItem m.db rid v r).2 = true) :
      PcStep cfg c rid v m (.finalise r) (.abortCheck r)
  /-- An abort ends the execution too, without grades. -/
  | within {r} (ha : (abortOverBudget m.db v.evalRunId cfg.spendLimit c.now).2 = false) :
      PcStep cfg c rid v m (.abortCheck r) (.gradeRead r)
  | regraded {r} (hg : (m.db.grades.any fun g => g.runItemId == rid) = true) :
      PcStep cfg c rid v m (.gradeRead r) (.maybeComplete ⟨.item .succeeded, none⟩)
  | ungraded {r} (hg : (m.db.grades.any fun g => g.runItemId == rid) = false) :
      PcStep cfg c rid v m (.gradeRead r) (.judge r)
  | raised {r e} (hc : c.grading = .raises e) :
      PcStep cfg c rid v m (.judge r) (.markGradingFailed e)
  | agreed {r gs} (hc : c.grading = .graded gs none) :
      PcStep cfg c rid v m (.judge r) (.gradeCommit gs none)
  | disagreed {r gs reason} (hc : c.grading = .graded gs (some reason)) :
      PcStep cfg c rid v m (.judge r) (.reviewCheck gs reason)
  | reviewed {gs reason} (hr : (m.db.reviews.any fun x => x.runItemId == rid) = true) :
      PcStep cfg c rid v m (.reviewCheck gs reason) (.gradeCommit gs none)
  | unreviewed {gs reason} (hr : (m.db.reviews.any fun x => x.runItemId == rid) = false) :
      PcStep cfg c rid v m (.reviewCheck gs reason) (.gradeCommit gs (some reason))
  /-- The one commit of the graders, which raises on a text the database cannot store. -/
  | committed {gs review} (hgs : storableGrades gs = true) :
      PcStep cfg c rid v m (.gradeCommit gs review) (.maybeComplete ⟨.item .succeeded, none⟩)
  | unstored {gs review} (hgs : storableGrades gs = false) :
      PcStep cfg c rid v m (.gradeCommit gs review) (.markGradingFailed notStorable)
  | gradingFailed {e} : PcStep cfg c rid v m (.markGradingFailed e)
      (.maybeComplete ⟨.item .failed, some .gradingFailed⟩)

/-- **Executions go on in these ways only**, and keep what their initial read loaded. -/
theorem stepRunItem_next {cfg : Config} {c : Choice} {rid : ItemId} {v : Loaded} {m : Backend}
    {pc : Pc} {p : Phase} (h : (stepRunItem cfg c rid v m pc).2 = .goto p) :
    ∃ pc', p = .at v pc' ∧ PcStep cfg c rid v m pc pc' := by
  cases pc with
  | skipCancelled | skipAborted | dropCancelled | maybeComplete =>
    exact absurd h (by simp [stepRunItem])
  | markRunning => exact ⟨_, (Next.goto.inj h).symm, .marked⟩
  | markNonRetryable => exact ⟨_, (Next.goto.inj h).symm, .failed⟩
  | markDeadLettered => exact ⟨_, (Next.goto.inj h).symm, .deadLettered⟩
  | markGradingFailed => exact ⟨_, (Next.goto.inj h).symm, .gradingFailed⟩
  | publishDeadLetter => exact ⟨_, (Next.goto.inj h).symm, .noticed⟩
  | writeArtifact => exact ⟨_, (Next.goto.inj h).symm, .written⟩
  | gradeCommit =>
    simp only [stepRunItem] at h
    split at h <;> rename_i hgs
    · exact ⟨_, (Next.goto.inj h).symm, .committed hgs⟩
    · exact ⟨_, (Next.goto.inj h).symm, .unstored (by simpa using hgs)⟩
  | complete a =>
    simp only [stepRunItem] at h
    split at h
    · rename_i hc
      exact ⟨_, (Next.goto.inj h).symm, .answered hc⟩
    · rename_i e hc
      by_cases ha : a + 1 ≤ cfg.retry.maxAttempts
      · rw [nextAttempt, if_pos ha] at h
        exact ⟨_, (Next.goto.inj h).symm, .retry hc ha⟩
      · refine ⟨_, (Next.goto.inj h).symm, ?_⟩
        have he : nextAttempt cfg.retry (a + 1) e = .markDeadLettered _ := if_neg ha
        rw [he]
        exact .exhausted hc (by omega) he
    · rename_i hc
      exact ⟨_, (Next.goto.inj h).symm, .rejected hc⟩
  | judge =>
    simp only [stepRunItem] at h
    split at h <;> rename_i hc
    · exact ⟨_, (Next.goto.inj h).symm, .raised hc⟩
    · exact ⟨_, (Next.goto.inj h).symm, .agreed hc⟩
    · exact ⟨_, (Next.goto.inj h).symm, .disagreed hc⟩
  | checkCancelled =>
    simp only [stepRunItem] at h
    split at h <;> rename_i hc
    · exact ⟨_, (Next.goto.inj h).symm, .cancelled hc⟩
    · exact ⟨_, (Next.goto.inj h).symm, .passed hc⟩
  | gradeRead =>
    simp only [stepRunItem] at h
    split at h <;> rename_i hg
    · exact ⟨_, (Next.goto.inj h).symm, .regraded hg⟩
    · exact ⟨_, (Next.goto.inj h).symm, .ungraded (by simpa using hg)⟩
  | reviewCheck =>
    simp only [stepRunItem] at h
    split at h <;> rename_i hr
    · exact ⟨_, (Next.goto.inj h).symm, .reviewed hr⟩
    · exact ⟨_, (Next.goto.inj h).symm, .unreviewed (by simpa using hr)⟩
  | finalise =>
    simp only [stepRunItem] at h
    split at h
    · rename_i hit
      exact ⟨_, (Next.goto.inj h).symm, .won hit⟩
    · exact absurd h (by simp)
  | abortCheck =>
    simp only [stepRunItem] at h
    split at h
    · exact absurd h (by simp)
    · rename_i ha
      exact ⟨_, (Next.goto.inj h).symm, .within (by simpa using ha)⟩

/-- Where the execution `e'` a slot has after a transition comes from. -/
inductive WorkerOrigin (cfg : Config) (w : World σ η) (s : σ) (e' : Exec) : Label σ η → Prop
  /-- It was there and did not move. -/
  | stayed {l} (hw : w.workers s = some e') (hl : ∀ c, l ≠ .exec s c) : WorkerOrigin cfg w s e' l
  | delivered {rid} (hidle : w.workers s = none) (hq : rid ∈ w.store.queue)
      (he : e' = ⟨rid, .start⟩) : WorkerOrigin cfg w s e' (.deliver s rid)
  | redelivered {rid} (hidle : w.workers s = none) (hq : rid ∈ w.store.sent)
      (he : e' = ⟨rid, .start⟩) : WorkerOrigin cfg w s e' (.redeliver s rid)
  /-- It took a step. -/
  | moved {c e p} (hw : w.workers s = some e)
      (hn : (executeRunItem cfg c e.rid w.store e.phase).2 = .goto p) (he : e' = ⟨e.rid, p⟩) :
      WorkerOrigin cfg w s e' (.exec s c)

/-- The label neither moves nor ends the execution of a slot. -/
def Label.Spares (s : σ) (l : Label σ η) : Prop := (∀ c, l ≠ .exec s c) ∧ l ≠ .crash s

theorem Next.phase?_eq_some {n : Next} {p : Phase} : n.phase? = some p ↔ n = .goto p := by
  cases n <;> simp [Next.phase?]

/-- An execution nobody moves stays. -/
theorem step_worker_stays {cfg : Config} {w w' : World σ η} {l : Label σ η}
    (hs : step cfg w l = some w') {s : σ} {e : Exec} (he : w.workers s = some e)
    (hl : l.Spares s) : w'.workers s = some e := by
  have busy : ∀ {s'}, w.workers s' = none → s ≠ s' := by
    rintro s' hidle rfl
    exact absurd (hidle.symm.trans he) (by simp)
  cases step_cases hs with
  | createRefused | cancelRefused | replayRefused | cancelling | replaying | handled | dropped =>
    exact he
  | created hc => rw [hc.workers]; exact he
  | delivered hidle | redelivered hidle => simpa [Function.update_of_ne (busy hidle)] using he
  | @executed s' c =>
    have hne : s ≠ s' := fun h => hl.1 c (h ▸ rfl)
    simpa [Function.update_of_ne hne] using he
  | @died s' =>
    have hne : s ≠ s' := fun h => hl.2 (h ▸ rfl)
    simpa [Function.update_of_ne hne] using he

/-- **Executions**: where the one a slot has after a transition comes from. -/
theorem step_worker {cfg : Config} {w w' : World σ η} {l : Label σ η} (hs : step cfg w l = some w')
    {s : σ} {e' : Exec} (he' : w'.workers s = some e') : WorkerOrigin cfg w s e' l := by
  cases step_cases hs with
  | createRefused | cancelRefused | replayRefused | cancelling | replaying | handled | dropped =>
    exact .stayed he' (by simp)
  | created hc => exact .stayed (hc.workers ▸ he') (by simp)
  | @delivered s' rid hidle hq =>
    by_cases hss : s = s'
    · subst hss
      exact .delivered hidle hq (by simpa using he'.symm)
    · exact .stayed (by simpa [Function.update_of_ne hss] using he') (by simp)
  | @redelivered s' rid hidle hq =>
    by_cases hss : s = s'
    · subst hss
      exact .redelivered hidle hq (by simpa using he'.symm)
    · exact .stayed (by simpa [Function.update_of_ne hss] using he') (by simp)
  | @executed s' c e he =>
    by_cases hss : s = s'
    · subst hss
      simp only [World.afterExec_workers, Function.update_self, Option.map_eq_some_iff] at he'
      obtain ⟨p, hp, rfl⟩ := he'
      exact .moved he (Next.phase?_eq_some.mp hp) rfl
    · refine .stayed (by simpa [Function.update_of_ne hss] using he') ?_
      intro c' hc'
      exact hss (by injection hc' with h1 _; exact h1.symm)
  | @died s' =>
    by_cases hss : s = s'
    · subst hss
      exact absurd he' (by simp)
    · exact .stayed (by simpa [Function.update_of_ne hss] using he') (by simp)

/-- Where an execution that stands at step `pc'` comes from. -/
inductive PcOrigin (cfg : Config) (w : World σ η) (s : σ) (i : ItemId) (v : Loaded) (pc' : Pc) :
    Label σ η → Prop
  | stayed {l} (hw : w.workers s = some ⟨i, .at v pc'⟩) (hl : ∀ c, l ≠ .exec s c) :
      PcOrigin cfg w s i v pc' l
  /-- It has just read its item. -/
  | started {c row run} (hw : w.workers s = some ⟨i, .start⟩)
      (hrow : w.store.db.items.get i = some row)
      (htask : cfg.catalog.tasks.get row.taskId = some v.task)
      (hend : cfg.catalog.endpoints.get row.modelEndpointId = some v.endpoint)
      (hv : v.evalRunId = row.evalRunId ∧ v.prevCost = row.cost ∧ v.prevTokens = row.tokens)
      (hrun : w.store.db.runs.get row.evalRunId = some run)
      (hcase : pc' = .skipCancelled ∧ run.status = .cancelled ∨
        pc' = .skipAborted ∧ run.status = .failed ∨
        pc' = nextAttempt cfg.retry 1 "None" ∧ run.status ≠ .cancelled ∧ run.status ≠ .failed ∧
          (row.status = .queued ∨ row.status = .deadLettered)) :
      PcOrigin cfg w s i v pc' (.exec s c)
  | stepped {c pc} (hw : w.workers s = some ⟨i, .at v pc⟩)
      (hstep : PcStep cfg c i v w.store pc pc') : PcOrigin cfg w s i v pc' (.exec s c)

theorem step_at {cfg : Config} {w w' : World σ η} {l : Label σ η} (hs : step cfg w l = some w')
    {s : σ} {i : ItemId} {v : Loaded} {pc' : Pc} (he' : w'.workers s = some ⟨i, .at v pc'⟩) :
    PcOrigin cfg w s i v pc' l := by
  cases step_worker hs he' with
  | stayed hw hl => exact .stayed hw hl
  | delivered _ _ he | redelivered _ _ he => exact absurd he (by simp)
  | @moved c e p hw hn he =>
    obtain ⟨j, p₀⟩ := e
    obtain ⟨rfl, rfl⟩ := Exec.mk.inj he
    cases p₀ with
    | start =>
      obtain ⟨row, task, endpoint, run, pc, hrow, htask, hend, hrun, heq, hcase⟩ :=
        startRunItem_goto hn
      obtain ⟨rfl, rfl⟩ := Phase.at.inj heq
      exact .started hw hrow htask hend ⟨rfl, rfl, rfl⟩ hrun hcase
    | «at» v₀ pc₀ =>
      obtain ⟨pc, heq, hstep⟩ := stepRunItem_next hn
      obtain ⟨rfl, rfl⟩ := Phase.at.inj heq
      exact .stepped hw hstep

/-- The steps an initial read can lead to. -/
def Pc.isFirst : Pc → Bool
  | .skipCancelled | .skipAborted | .markRunning _ | .markDeadLettered _ => true
  | _ => false

theorem nextAttempt_isFirst (retry : RetryConfig) (attempt : Nat) (reason : String) :
    (nextAttempt retry attempt reason).isFirst = true := by
  rw [nextAttempt]
  split <;> rfl

/-- **Executions behind their first step**: one that stands at a later one has stayed there or
has just come from the step before it. -/
theorem step_pc {cfg : Config} {w w' : World σ η} {l : Label σ η} (hs : step cfg w l = some w')
    {s : σ} {i : ItemId} {v : Loaded} {pc' : Pc} (he' : w'.workers s = some ⟨i, .at v pc'⟩)
    (hpc : pc'.isFirst = false) :
    (w.workers s = some ⟨i, .at v pc'⟩ ∧ ∀ c, l ≠ .exec s c) ∨
      ∃ c pc, l = .exec s c ∧ w.workers s = some ⟨i, .at v pc⟩ ∧
        PcStep cfg c i v w.store pc pc' := by
  cases step_at hs he' with
  | stayed hw hl => exact Or.inl ⟨hw, hl⟩
  | started _ _ _ _ _ _ hcase =>
    rcases hcase with ⟨rfl, -⟩ | ⟨rfl, -⟩ | ⟨rfl, -⟩
    · exact absurd hpc (by simp [Pc.isFirst])
    · exact absurd hpc (by simp [Pc.isFirst])
    · exact absurd hpc (by simp [nextAttempt_isFirst])
  | @stepped c pc hw hstep => exact Or.inr ⟨c, pc, rfl, hw, hstep⟩

/-- What a request is after a step that does not end it. -/
inductive HandlerNext (m : Backend) : Handler → Handler → Prop
  | enqueue {i rest} (hne : rest ≠ []) :
      HandlerNext m (.createEnqueue (i :: rest)) (.createEnqueue rest)
  | readRun {rid r} (hok : replayReadRun m.db r = .ok ()) :
      HandlerNext m (.replayReadRun rid r) (.replayCommit rid r)
  | commit {rid r} : HandlerNext m (.replayCommit rid r) (.replayEnqueue rid)

theorem stepHandler_next {m : Backend} {now : Timestamp} {x x' : Handler}
    (h : (stepHandler m now x).2 = some x') : HandlerNext m x x' := by
  cases x with
  | createEnqueue pending =>
    cases pending with
    | nil => exact absurd h (by simp [stepHandler])
    | cons j rest =>
      simp only [stepHandler] at h
      split at h
      · exact absurd h (by simp)
      · rename_i hne
        obtain rfl := Option.some.inj h
        exact .enqueue hne
  | replayReadRun rid r =>
    simp only [stepHandler] at h
    split at h
    · exact absurd h (by simp)
    · rename_i hok
      obtain rfl := Option.some.inj h
      exact .readRun hok
  | replayCommit rid r =>
    obtain rfl := Option.some.inj h
    exact .commit
  | cancelCommit | replayEnqueue => exact absurd h (by simp [stepHandler])

/-- Where the request `x'` a slot has after a transition comes from. -/
inductive HandlerOrigin (cfg : Config) (w w' : World σ η) (h : η) (x' : Handler) :
    Label σ η → Prop
  | stayed {l} (hw : w.handlers h = some x') (hl : ∀ now, l ≠ .handler h now) :
      HandlerOrigin cfg w w' h x' l
  | created {payload r itemIds now} (hc : Created cfg w h payload r itemIds now w')
      (hx : x' = .createEnqueue itemIds) :
      HandlerOrigin cfg w w' h x' (.create h payload r itemIds now)
  | cancelling {r} (hidle : w.handlers h = none) (hc : cancelRead w.store.db r = .ok true)
      (hx : x' = .cancelCommit r) : HandlerOrigin cfg w w' h x' (.cancel h r)
  | replaying {rid r} (hidle : w.handlers h = none) (hc : replayReadItem w.store.db rid = .ok r)
      (hx : x' = .replayReadRun rid r) : HandlerOrigin cfg w w' h x' (.replay h rid)
  | moved {now x} (hw : w.handlers h = some x) (hn : (stepHandler w.store now x).2 = some x') :
      HandlerOrigin cfg w w' h x' (.handler h now)

/-- A request nobody moves stays. -/
theorem step_request_stays {cfg : Config} {w w' : World σ η} {l : Label σ η}
    (hs : step cfg w l = some w') {h : η} {x : Handler} (hx : w.handlers h = some x)
    (hl : ∀ now, l ≠ .handler h now) (hd : l ≠ .drop h) : w'.handlers h = some x := by
  have busy : ∀ {h'}, w.handlers h' = none → h ≠ h' := by
    rintro h' hidle rfl
    exact absurd (hidle.symm.trans hx) (by simp)
  cases step_cases hs with
  | createRefused | cancelRefused | replayRefused | delivered | redelivered | died => exact hx
  | created hc => simpa [hc.handlers, Function.update_of_ne (busy hc.idle)] using hx
  | cancelling hidle | replaying hidle => simpa [Function.update_of_ne (busy hidle)] using hx
  | @handled h' now =>
    have hne : h ≠ h' := fun hh => hl now (hh ▸ rfl)
    simpa [Function.update_of_ne hne] using hx
  | @dropped h' =>
    have hne : h ≠ h' := fun hh => hd (hh ▸ rfl)
    simpa [Function.update_of_ne hne] using hx
  | executed => simpa using hx

/-- **Requests**: where the one a slot has after a transition comes from. -/
theorem step_request {cfg : Config} {w w' : World σ η} {l : Label σ η} (hs : step cfg w l = some w')
    {h : η} {x' : Handler} (hx' : w'.handlers h = some x') : HandlerOrigin cfg w w' h x' l := by
  cases step_cases hs with
  | createRefused | cancelRefused | replayRefused | delivered | redelivered | died =>
    exact .stayed hx' (by simp)
  | @created h' payload r itemIds now _ hc =>
    rw [hc.handlers] at hx'
    by_cases hh : h = h'
    · subst hh
      refine .created hc ?_
      by_cases hn : itemIds = []
      · simp [hn] at hx'
      · simpa [hn] using hx'.symm
    · exact .stayed (by simpa [Function.update_of_ne hh] using hx') (by simp)
  | @cancelling h' r hidle hc =>
    by_cases hh : h = h'
    · subst hh
      exact .cancelling hidle hc (by simpa using hx'.symm)
    · exact .stayed (by simpa [Function.update_of_ne hh] using hx') (by simp)
  | @replaying h' rid r hidle hc =>
    by_cases hh : h = h'
    · subst hh
      exact .replaying hidle hc (by simpa using hx'.symm)
    · exact .stayed (by simpa [Function.update_of_ne hh] using hx') (by simp)
  | @handled h' now x hx =>
    by_cases hh : h = h'
    · subst hh
      exact .moved hx (by simpa using hx')
    · refine .stayed (by simpa [Function.update_of_ne hh] using hx') ?_
      intro now' hc
      exact hh (by injection hc with h1 _; exact h1.symm)
  | @dropped h' =>
    by_cases hh : h = h'
    · subst hh
      exact absurd hx' (by simp)
    · exact .stayed (by simpa [Function.update_of_ne hh] using hx') (by simp)
  | executed => exact .stayed (by simpa using hx') (by simp)

/-! ## 6. Grades and reviews -/

/-- Only the commit of the graders writes grades and reviews. -/
theorem stepRunItem_grades {cfg : Config} {c : Choice} {rid : ItemId} {v : Loaded} {m : Backend}
    {pc : Pc} (hpc : ∀ gs review, storableGrades gs = true → pc ≠ .gradeCommit gs review) :
    (stepRunItem cfg c rid v m pc).1.db.grades = m.db.grades ∧
      (stepRunItem cfg c rid v m pc).1.db.reviews = m.db.reviews := by
  cases pc with
  | gradeCommit gs review =>
    have hgs : storableGrades gs = false := by
      by_contra hne
      exact hpc gs review (by simpa using hne) rfl
    simp [stepRunItem, hgs]
  | complete | judge | checkCancelled | gradeRead | reviewCheck =>
    simp only [stepRunItem]
    split <;> exact ⟨rfl, rfl⟩
  | finalise =>
    simp only [stepRunItem, finaliseRunItem]
    split <;> exact ⟨rfl, rfl⟩
  | abortCheck =>
    simp only [stepRunItem, abortOverBudget]
    split <;> exact ⟨rfl, rfl⟩
  | maybeComplete =>
    simp only [stepRunItem, maybeCompleteRun]
    split <;> exact ⟨rfl, rfl⟩
  | _ => exact ⟨rfl, rfl⟩

/-- **Grades and reviews**: a transition leaves them alone or is the commit of some item's
graders. -/
theorem step_grades {cfg : Config} {w w' : World σ η} {l : Label σ η}
    (hs : step cfg w l = some w') :
    (w'.store.db.grades = w.store.db.grades ∧ w'.store.db.reviews = w.store.db.reviews) ∨
      ∃ s c i v gs review, l = .exec s c ∧
        w.workers s = some ⟨i, .at v (.gradeCommit gs review)⟩ ∧ storableGrades gs = true ∧
        w'.store.db = insertGrades w.store.db i gs review := by
  by_cases hl : l.isQuiet = true
  · rw [(step_quiet hs hl).1]
    exact Or.inl ⟨rfl, rfl⟩
  cases l with
  | create h payload r itemIds now =>
    rcases step_create hs with rfl | hc
    · exact Or.inl ⟨rfl, rfl⟩
    · obtain ⟨pairs, -, hins⟩ := hc.pairs
      obtain ⟨run, rows, -, -, hg, hr, -⟩ := insertRun_tables hins
      exact Or.inl ⟨hg, hr⟩
  | handler h now =>
    obtain ⟨x, hx, rfl⟩ := step_handler_eq hs
    left
    cases x with
    | createEnqueue pending => cases pending <;> exact ⟨rfl, rfl⟩
    | replayReadRun i r =>
      simp only [World.setHandler_store, stepHandler]
      split <;> exact ⟨rfl, rfl⟩
    | _ => exact ⟨rfl, rfl⟩
  | exec s c =>
    obtain ⟨⟨rid, p⟩, he, rfl⟩ := step_exec hs
    rw [World.afterExec_store]
    cases p with
    | start => exact Or.inl ⟨rfl, rfl⟩
    | «at» v pc =>
      by_cases hpc : ∃ gs review, storableGrades gs = true ∧ pc = .gradeCommit gs review
      · obtain ⟨gs, review, hgs, rfl⟩ := hpc
        exact Or.inr ⟨s, c, rid, v, gs, review, rfl, he, hgs,
          by simp [executeRunItem, stepRunItem, hgs]⟩
      · exact Or.inl (stepRunItem_grades fun gs review hgs h => hpc ⟨gs, review, hgs, h⟩)
  | cancel | replay | drop | deliver | redeliver | crash => exact absurd rfl hl

end EvalHarness
