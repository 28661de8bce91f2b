/-
# No run gets stuck

Only some of the exits of `execute_run_item` check whether the run is complete: a lost race, a
dropped answer and the two skips do not.  Three facts make up for that, under a broker and workers
one can rely on.

* **Somebody will check** (`Progress`).  A run that is still `running` has an active item, which some
  party looks after (`Once.active`), or an execution on its way to the check.  When an item stops
  being active, its own execution is on that way (`progress_of_active`); when the check is made, the
  run settles or another item was active (`progress_of_checker`).
* **What the status says** (`Clean`).  As long as a run was neither cancelled nor aborted for its
  spending, `failed` means a dead letter and `completed` means none.  Since nobody but its own
  execution fails an item of such a run (`Clean.keep_of_outside`), a held item has never failed.
* **Replays that do not overlap** (`Separate`) find their item a dead letter still, so a schedule of
  such replays is calm (`calm_of_separate`), and `Once` applies.

`no_stuck_run` puts them together for a run that nobody works on any more.  It needs the database
to accept what is committed: an execution whose transaction is refused ends behind its item, and the
item and the run stay as they are (`refused_stuck`).
-/
import EvalHarness.Once
import EvalHarness.Refusals
import Mathlib.Data.Fintype.Basic

namespace EvalHarness

open Lts

variable {σ η : Type} [DecidableEq σ] [DecidableEq η] {cfg : Config} {w w' : World σ η}

/-! ## 1. What the run-level transactions do -/

/-- What a completion check does. -/
theorem step_of_check {s : σ} {c : Choice} (hs : step cfg w (.exec s c) = some w') {i : ItemId}
    {v : Loaded} {ret : Return} (he : w.workers s = some ⟨i, .at v (.maybeComplete ret)⟩) :
    (∀ j, w'.store.db.items.get j = w.store.db.items.get j) ∧
      (∀ r, w'.store.db.runs.get r = (w.store.db.runs.get r).map fun run =>
        if r = v.evalRunId ∧ run.status = .running ∧ remaining w.store.db v.evalRunId = 0 then
          { run with
            status := if hasDeadLetter w.store.db v.evalRunId then .failed else .completed
            completedAt := some c.now }
        else run) ∧
      w'.workers s = none := by
  obtain ⟨e, he', rfl⟩ := step_exec hs
  obtain rfl := Option.some.inj (he.symm.trans he')
  refine ⟨fun j => ?_, fun r => ?_, ?_⟩
  · simp [executeRunItem, stepRunItem]
  · simp only [World.afterExec_store, executeRunItem, stepRunItem]
    exact maybeCompleteRun_get _ _ _ r
  · simp [executeRunItem, stepRunItem, Next.phase?]

/-- What a cancellation does. -/
theorem step_of_cancel {h : η} {now : Timestamp} (hs : step cfg w (.handler h now) = some w')
    {r : RunId} (hx : w.handlers h = some (.cancelCommit r)) :
    (∀ j, w'.store.db.items.get j = (w.store.db.items.get j).map fun row =>
        if row.evalRunId = r ∧ row.status = .queued then
          { row with status := .failed, error := some "eval run cancelled" }
        else row) ∧
      ∀ r', w'.store.db.runs.get r' = (w.store.db.runs.get r').map fun run =>
        if r' = r ∧ (run.status = .pending ∨ run.status = .running) then
          { run with status := .cancelled, completedAt := some now }
        else run := by
  obtain ⟨x, hx', rfl⟩ := step_handler_eq hs
  obtain rfl := Option.some.inj (hx.symm.trans hx')
  simp [stepHandler, cancelEvalRun]

/-- No item of the run is active: what a completion check counts. -/
theorem remaining_eq_zero {db : Db} {r : RunId} :
    remaining db r = 0 ↔ ∀ i row, db.items.get i = some row → row.evalRunId = r →
      row.status.isActive = false := by
  simp only [remaining, Table.count_eq_zero]
  constructor
  · intro h i row hrow hr
    simpa [hr] using h i row hrow
  · intro h i row hrow
    by_cases hr : row.evalRunId = r
    · simp [hr, h i row hrow hr]
    · simp [hr]

theorem hasDeadLetter_iff {db : Db} {r : RunId} :
    hasDeadLetter db r = true ↔ ∃ i row, db.items.get i = some row ∧ row.evalRunId = r ∧
      row.status = .deadLettered := by
  simp only [hasDeadLetter, bne_iff_ne, Table.count_ne_zero, Bool.and_eq_true, beq_iff_eq]

/-! ## 2. Somebody will check -/

/-- The execution is on its way to the completion check, or to a spend abort. -/
def Pc.checks : Pc → Bool
  | .publishDeadLetter | .abortCheck _ | .gradeRead _ | .judge _ | .reviewCheck _ _
  | .gradeCommit _ _ | .markGradingFailed _ | .maybeComplete _ => true
  | _ => false

theorem PcStep.checks {c : Choice} {rid : ItemId} {v : Loaded} {m : Backend} {pc pc' : Pc}
    (h : PcStep cfg c rid v m pc pc') (hp : pc.checks = true) : pc'.checks = true := by
  cases h <;> first | rfl | exact absurd hp (by simp [Pc.checks])

/-- An item of the run is active. -/
def World.HasActive (w : World σ η) (r : RunId) : Prop :=
  ∃ i row, w.store.db.items.get i = some row ∧ row.evalRunId = r ∧ row.status.isActive = true

/-- An execution of an item of the run is on its way to the check. -/
def World.HasChecker (w : World σ η) (r : RunId) : Prop :=
  ∃ s i v pc, w.workers s = some ⟨i, .at v pc⟩ ∧ v.evalRunId = r ∧ pc.checks = true

/-- A running run has an active item or somebody on the way to the check. -/
def Progress (w : World σ η) : Prop :=
  ∀ r run, w.store.db.runs.get r = some run → run.status = .running →
    w.HasActive r ∨ w.HasChecker r

/-- A fresh run that has items has active ones. -/
theorem Created.hasActive {σ η : Type} [DecidableEq η] {w w' : World σ η}
    {h : η} {payload : EvalRunCreate} {r : RunId} {itemIds : List ItemId}
    {now : Timestamp} (hc : Created cfg w h payload r itemIds now w') (hne : itemIds ≠ []) :
    w'.HasActive r := by
  obtain ⟨pairs, -, hins⟩ := hc.pairs
  obtain ⟨run, rows, -, hitems, -, -, hids, hnew, -⟩ := insertRun_tables hins
  cases rows with
  | nil => exact absurd hids.symm hne
  | cons x rows =>
    obtain ⟨p, -, hp⟩ := hnew x (by simp)
    exact ⟨x.1, x.2, (Table.get_insertAll_some hitems).mpr (Or.inr (by simp)), by simp [hp],
      by simp [hp, RunItemStatus.isActive, RunItemStatus.isTerminal]⟩

/-- An active item of a run that is still running afterwards stays active, or its execution is
on its way to the check. -/
theorem progress_of_active {l : Label σ η} (hI : Once cfg w) (hs : step cfg w l = some w')
    {i : ItemId} {row : RunItem} {run run' : EvalRun} (hrow : w.store.db.items.get i = some row)
    (hact : row.status.isActive = true) (hrun : w.store.db.runs.get row.evalRunId = some run)
    (hst : run.status = .running) (hrun' : w'.store.db.runs.get row.evalRunId = some run')
    (hst' : run'.status = .running) :
    w'.HasActive row.evalRunId ∨ w'.HasChecker row.evalRunId := by
  obtain ⟨row', hrow', hch⟩ := step_item hs hrow
  have checker : ∀ {s c v pc pc'}, l = .exec s c → w.workers s = some ⟨i, .at v pc⟩ →
      (stepRunItem cfg c i v w.store pc).2 = .goto (.at v pc') → pc'.checks = true →
      w'.HasChecker row.evalRunId := by
    rintro s c v pc pc' rfl he hn hp
    obtain ⟨row₁, hrow₁, hv, -⟩ := hI.sane.loaded s i v pc he
    obtain rfl := Option.some.inj (hrow.symm.trans hrow₁)
    obtain ⟨e, he', rfl⟩ := step_exec hs
    obtain rfl := Option.some.inj (he.symm.trans he')
    exact ⟨s, i, v, pc', by simp [executeRunItem, hn, Next.phase?], hv, hp⟩
  have fits : ∀ {s v pc}, w.workers s = some ⟨i, .at v pc⟩ → (Phase.at v pc).owns = true →
      pc.allows row.status = true := fun he hp => (hI.fits i _ _ _ (.worker he hp) hrow).status
  cases hch with
  | keep => exact Or.inl ⟨i, _, hrow', rfl, hact⟩
  | markRunning => exact Or.inl ⟨i, _, hrow', rfl, rfl⟩
  | @markFailed s c v pc error he hpc =>
    right
    -- a skip finds its item failed and grading finds it succeeded, so only the provider's error counts
    cases pc with
    | markNonRetryable e => exact checker rfl he rfl rfl
    | skipAborted =>
      have := fits he rfl
      simp only [Pc.allows, beq_iff_eq] at this
      rw [this] at hact
      exact absurd hact (by simp [RunItemStatus.isActive, RunItemStatus.isTerminal])
    | markGradingFailed e =>
      have := fits he rfl
      simp only [Pc.allows, beq_iff_eq] at this
      rw [this] at hact
      exact absurd hact (by simp [RunItemStatus.isActive, RunItemStatus.isTerminal])
    | _ => exact absurd hpc (by simp [Pc.failsWith])
  | markDeadLettered he => exact Or.inr (checker rfl he rfl rfl)
  | @markCancelled s c v pc he hpc _ =>
    have hskip := hI.sane.skipping s i v pc he (by rcases hpc with rfl | rfl <;> rfl)
    obtain ⟨row₁, hrow₁, hv, -⟩ := hI.sane.loaded s i v pc he
    obtain rfl := Option.some.inj (hrow.symm.trans hrow₁)
    simp [World.runStatusOf, hv, hrun, hst] at hskip
  | @finalise s c v res he hr =>
    refine Or.inr (checker rfl he (?_ : _ = Next.goto (.at v (.abortCheck res))) rfl)
    simp [stepRunItem, finaliseRunItem_iff.mpr ⟨row, hrow, hr⟩]
  -- the abort and the cancellation settle the run itself
  | @abort s c j v res he hr hover _ =>
    obtain ⟨run₁, hrun₁, hover⟩ := hover
    obtain rfl := Option.some.inj ((hr ▸ hrun).symm.trans hrun₁)
    have hget := (step_of_abort hs he hrun₁ hover).2.1 row.evalRunId
    rw [hrun, hrun', hr] at hget
    simp only [hover, and_self, if_true, Option.map_some, Option.some.injEq] at hget
    rw [hget] at hst'
    exact absurd hst' (by simp)
  | cancel hh _ =>
    have hget := (step_of_cancel hs hh).2 row.evalRunId
    rw [hrun, hrun'] at hget
    simp only [hst, or_true, and_self, if_true, Option.map_some, Option.some.injEq] at hget
    rw [hget] at hst'
    exact absurd hst' (by simp)
  | requeue _ hd =>
    rw [hd] at hact
    exact absurd hact (by simp [RunItemStatus.isActive, RunItemStatus.isTerminal])

/-- Somebody on the way to the check gets there, and what the check finds decides. -/
theorem progress_of_checker {l : Label σ η} (hok : Calm w l) (hs : step cfg w l = some w')
    {s : σ} {i : ItemId} {v : Loaded} {pc : Pc} {run run' : EvalRun}
    (he : w.workers s = some ⟨i, .at v pc⟩) (hp : pc.checks = true)
    (hrun : w.store.db.runs.get v.evalRunId = some run) (hst : run.status = .running)
    (hrun' : w'.store.db.runs.get v.evalRunId = some run') (hst' : run'.status = .running) :
    w'.HasActive v.evalRunId ∨ w'.HasChecker v.evalRunId := by
  by_cases hl : l.Spares s
  · exact Or.inr ⟨s, i, v, pc, step_worker_stays hs he hl, rfl, hp⟩
  obtain ⟨c, rfl⟩ := Label.exec_of_reliable hok.1 hl
  by_cases hgo : ∃ p', (stepRunItem cfg c i v w.store pc).2 = .goto p'
  · obtain ⟨p', hn⟩ := hgo
    obtain ⟨pc', rfl, hstep⟩ := stepRunItem_next hn
    obtain ⟨e, he', rfl⟩ := step_exec hs
    obtain rfl := Option.some.inj (he.symm.trans he')
    exact Or.inr ⟨s, i, v, pc', by simp [executeRunItem, hn, Next.phase?], rfl, hstep.checks hp⟩
  · cases stepRunItem_ends fun p' hn => hgo ⟨p', hn⟩ with
    | aborted ha =>
      obtain ⟨run₁, hrun₁, hover⟩ := abortOverBudget_iff.mp ha
      obtain rfl := Option.some.inj (hrun.symm.trans hrun₁)
      have hget := (step_of_abort hs he hrun hover).2.1 v.evalRunId
      rw [hrun, hrun'] at hget
      simp only [hover, and_self, if_true, Option.map_some, Option.some.injEq] at hget
      rw [hget] at hst'
      exact absurd hst' (by simp)
    | checked =>
      -- a count of zero settles the run, and any other has found an active item
      obtain ⟨hitems, hruns, -⟩ := step_of_check hs he
      by_cases hrem : remaining w.store.db v.evalRunId = 0
      · have hget := hruns v.evalRunId
        rw [hrun, hrun'] at hget
        simp only [hst, hrem, and_self, if_true, Option.map_some, Option.some.injEq] at hget
        rw [hget] at hst'
        revert hst'
        cases hasDeadLetter w.store.db v.evalRunId <;> simp
      · left
        rw [remaining_eq_zero] at hrem
        push Not at hrem
        obtain ⟨j, row, hrow, hr, hact⟩ := hrem
        exact ⟨j, row, by rw [hitems]; exact hrow, hr, by simpa using hact⟩
    | _ => exact absurd hp (by simp [Pc.checks])

/-- **Somebody will check**, after every step. -/
theorem progress_step {l : Label σ η} (hI : Once cfg w) (hok : Calm w l) (hP : Progress w)
    (hs : step cfg w l = some w') : Progress w' := by
  intro r run' hrun' hst'
  cases hrun : w.store.db.runs.get r with
  | none =>
    obtain ⟨h, payload, itemIds, now, rfl, hc, -, -, -, hst⟩ := step_run_new hs hrun' hrun
    by_cases hne : itemIds = []
    · rw [if_pos hne] at hst
      exact absurd (hst.1.symm.trans hst') (by simp)
    · exact Or.inl (hc.hasActive hne)
  | some run =>
    have hch := runChange hs hrun hrun'
    have onward : run.status = .running → w'.HasActive r ∨ w'.HasChecker r := by
      intro hst
      rcases hP r run hrun hst with ⟨i, row, hrow, rfl, hact⟩ | ⟨s, i, v, pc, he, rfl, hp⟩
      · exact progress_of_active hI hs hrow hact hrun hst hrun' hst'
      · exact progress_of_checker hok hs he hp hrun hst hrun' hst'
    cases hch with
    | keep | rollup => exact onward hst'
    | @reopen h now i hx _ =>
      obtain ⟨row, hrow, hd⟩ := Option.map_eq_some_iff.mp (hok.2 i (by simp [replayed, hx]))
      have hr : row.evalRunId = r := by
        simpa [World.runOf, hrow] using hI.sane.replaying h _ i r hx rfl
      exact Or.inl ⟨i, { row with status := .queued, error := none },
        by simp [(step_of_replay hs hx).1 i, hrow, hd], hr, rfl⟩
    | _ => exact absurd hst' (by simp)

/-! ## 3. What the status of an undisturbed run says -/

/-- The run becomes `cancelled`. -/
def cancelsRun (cfg : Config) (r : RunId) (p : World σ η × Label σ η) : Bool :=
  match step cfg p.1 p.2 with
  | some w' => p.1.runStatusOf r != some .cancelled && w'.runStatusOf r == some .cancelled
  | none => false

/-- The run is aborted for its spending. -/
def abortsRun (cfg : Config) (r : RunId) (p : World σ η × Label σ η) : Bool :=
  match p.1.mover p.2 with
  | some ⟨_, .at v (.abortCheck _)⟩ =>
    v.evalRunId == r && (p.1.store.db.runs.get r).any (overBudget cfg.spendLimit)
  | _ => false

/-- The run was never cancelled and never aborted for its spending. -/
def Undisturbed (cfg : Config) (tr : List (World σ η × Label σ η)) (r : RunId) : Prop :=
  ∀ p ∈ tr, cancelsRun cfg r p = false ∧ abortsRun cfg r p = false

theorem Undisturbed.snoc {tr : List (World σ η × Label σ η)} {r : RunId}
    {p : World σ η × Label σ η} (h : Undisturbed cfg (tr ++ [p]) r) :
    Undisturbed cfg tr r ∧ cancelsRun cfg r p = false ∧ abortsRun cfg r p = false :=
  ⟨fun q hq => h q (List.mem_append_left _ hq), h p (List.mem_append_right _ (by simp))⟩

/-- What the status of an undisturbed run says about its items. -/
structure Clean (w : World σ η) (r : RunId) : Prop where
  not_cancelled : w.runStatusOf r ≠ some .cancelled
  /-- Nobody holds a failed item. -/
  held : ∀ i a p row, w.Holds i a p → w.store.db.items.get i = some row → row.evalRunId = r →
    row.status ≠ .failed
  completed : w.runStatusOf r = some .completed → ∀ i row, w.store.db.items.get i = some row →
    row.evalRunId = r → row.status = .succeeded ∨ row.status = .failed
  failed : w.runStatusOf r = some .failed → ∃ i row, w.store.db.items.get i = some row ∧
    row.evalRunId = r ∧ row.status = .deadLettered

/-- An undisturbed run's waiting items are not touched from outside. -/
theorem Clean.keep_of_outside {l : Label σ η} {r : RunId} (hI : Once cfg w) (hC : Clean w r)
    (hs : step cfg w l = some w') (hcan : cancelsRun cfg r (w, l) = false)
    (hab : abortsRun cfg r (w, l) = false) {i : ItemId} {row row' : RunItem}
    (hrow : w.store.db.items.get i = some row) (hr : row.evalRunId = r)
    (h : OutsideChange cfg w i row l row') :
    row' = row ∨ row.status = .deadLettered ∧ row'.status = .queued ∧
      ∃ h now r', l = .handler h now ∧ w.handlers h = some (.replayCommit i r') := by
  cases h with
  | keep => exact Or.inl rfl
  | requeue hh hd => exact Or.inr ⟨hd, rfl, _, _, _, rfl, hh⟩
  | abort hw hv hrun hover _ =>
    rw [hr] at hv hrun
    simp [abortsRun, World.mover, hw, hv, hrun, hover] at hab
  | @cancel h now hh hq =>
    rw [hr] at hh
    obtain ⟨run, hrun⟩ := hI.sane.run_of_item i row hrow
    have hnp := hI.sane.not_pending _ _ hrun
    have hfail := hI.failed i row run hrow hrun
    rw [hr] at hrun
    have hstatus : w.runStatusOf r = some run.status := by simp [World.runStatusOf, hrun]
    -- a cancellation that fails a queued item finds the run running, and cancels it
    have hrunning : run.status = .running := by
      cases hst : run.status with
      | running => rfl
      | pending => exact absurd hst hnp
      | failed => exact absurd hq (hfail hst)
      | cancelled => exact absurd (hstatus.trans (by rw [hst])) hC.not_cancelled
      | completed =>
        rcases hC.completed (hstatus.trans (by rw [hst])) i row hrow hr with h | h <;>
          exact absurd (hq.symm.trans h) (by simp)
    have hget := (step_of_cancel hs hh).2 r
    simp [cancelsRun, hs, World.runStatusOf, hrun, hget, hrunning] at hcan

/-- The execution of an item of an undisturbed run goes on with an item that has not failed. -/
theorem Clean.held_step {l : Label σ η} {r : RunId} (hI : Once cfg w) (hok : Calm w l)
    (hC : Clean w r) (hs : step cfg w l = some w') (hcan : cancelsRun cfg r (w, l) = false)
    (hab : abortsRun cfg r (w, l) = false) {i : ItemId} {a : Holder σ η} {p : Phase}
    {row' : RunItem} (ha : w'.Holds i a p) (hrow' : w'.store.db.items.get i = some row')
    (hr' : row'.evalRunId = r) : row'.status ≠ .failed := by
  intro hf
  cases hrow : w.store.db.items.get i with
  | none =>
    obtain ⟨_, _, _, _, _, -, -, -, pair, rfl, -⟩ := step_item_new hs hrow' hrow
    exact absurd hf (by simp)
  | some row =>
    have hch := itemChange hs hrow hrow'
    have hr : row.evalRunId = r := hch.keeps.1.symm.trans hr'
    have outside : OutsideChange cfg w i row l row' → row.status ≠ .failed → False := by
      intro hout hne
      rcases hC.keep_of_outside hI hs hcan hab hrow hr hout with rfl | ⟨-, hq, -⟩
      · exact hne hf
      · exact absurd (hq.symm.trans hf) (by simp)
    cases step_holds hI.single hok.tame hs ha with
    | kept hw hl =>
      exact outside (hI.single.outside_of_kept hw hl hch) (hC.held i _ _ row hw hrow hr)
    | delivered hw =>
      have hne := hC.held i _ _ row hw hrow hr
      cases hch
      exact hne hf
    | published hx hi =>
      have hw := World.Holds.request hx (Handler.publishes_mem hi)
      refine outside ?_ (hC.held i _ _ row hw hrow hr)
      rcases hch.outside with ⟨_, _, _, _, hl, -⟩ | hout
      · exact absurd hl (by simp)
      · exact hout
    | @moved s c p₀ p' hw hn hp =>
      have hheld := World.Holds.worker hw (owns_of_goto hn hp)
      have hne := hC.held i _ _ row hheld hrow hr
      have hfit := hI.fits i _ _ _ hheld hrow
      cases p₀ with
      | start =>
        obtain ⟨e, he, rfl⟩ := step_exec hs
        obtain rfl := Option.some.inj (hw.symm.trans he)
        rw [World.afterExec_store] at hrow'
        obtain rfl := Option.some.inj (hrow.symm.trans hrow')
        exact hne hf
      | «at» v pc =>
        obtain rfl := hfit.row_of_exec hs hw hrow hrow'
        obtain ⟨pc', rfl, hstep⟩ := stepRunItem_next hn
        cases hstep with
        | marked => exact absurd hf (by simp [Pc.rowAfter])
        | won =>
          have hst := hfit.status
          simp only [Phase.allows, Pc.allows, beq_iff_eq] at hst
          simp [Pc.rowAfter, hst, finalisedRow] at hf
        | failed | deadLettered | noticed | regraded | committed | gradingFailed =>
          exact absurd hp (by simp [Phase.owns])
        | _ => exact hne hf
    | created hc hi =>
      rw [hc.fresh.2.1 i hi] at hrow
      exact absurd hrow (by simp)
    | requeued hx =>
      obtain ⟨row₂, hrow₂, hd⟩ := Option.map_eq_some_iff.mp (hok.2 i (by simp [replayed, hx]))
      obtain rfl := Option.some.inj (hrow.symm.trans hrow₂)
      rw [(step_of_replay hs hx).1, hrow] at hrow'
      simp only [hd, and_self, if_true, Option.map_some, Option.some.injEq] at hrow'
      rw [← hrow'] at hf
      exact absurd hf (by simp)

/-- A completed run keeps to terminal items, and none of them is a dead letter. -/
theorem Clean.completed_step {l : Label σ η} {r : RunId} (hI : Once cfg w) (hC : Clean w r)
    (hs : step cfg w l = some w') (hcan : cancelsRun cfg r (w, l) = false)
    (hab : abortsRun cfg r (w, l) = false) (hst' : w'.runStatusOf r = some .completed) {i : ItemId}
    {row' : RunItem} (hrow' : w'.store.db.items.get i = some row') (hr' : row'.evalRunId = r) :
    row'.status = .succeeded ∨ row'.status = .failed := by
  obtain ⟨run', hrun', hdone⟩ := Option.map_eq_some_iff.mp hst'
  cases hrun : w.store.db.runs.get r with
  | none =>
    obtain ⟨h, payload, itemIds, now, rfl, hc, -, -, -, hst⟩ := step_run_new hs hrun' hrun
    -- only an empty run is created completed
    have hnil : itemIds = [] := by
      by_contra hne
      rw [if_neg hne] at hst
      exact absurd (hst.1.symm.trans hdone) (by simp)
    cases hrow : w.store.db.items.get i with
    | none =>
      obtain ⟨_, _, _, _, _, hl, -, hi, -⟩ := step_item_new hs hrow' hrow
      obtain ⟨-, -, -, rfl, -⟩ := Label.create.inj hl
      exact absurd hi (by simp [hnil])
    | some row =>
      have hch := itemChange hs hrow hrow'
      obtain ⟨run, hrun₁⟩ := hI.sane.run_of_item i row hrow
      rw [← hch.keeps.1, hr', hrun] at hrun₁
      exact absurd hrun₁ (by simp)
  | some run =>
    cases hrow : w.store.db.items.get i with
    | none =>
      obtain ⟨_, _, r₁, _, _, rfl, hc, -, pair, rfl, -⟩ := step_item_new hs hrow' hrow
      obtain rfl : r₁ = r := hr'
      rw [hc.fresh.2.2] at hrun
      exact absurd hrun (by simp)
    | some row =>
      have hch := itemChange hs hrow hrow'
      have hr : row.evalRunId = r := hch.keeps.1.symm.trans hr'
      have hchr := runChange hs hrun hrun'
      have already : run.status = .completed → row'.status = .succeeded ∨ row'.status = .failed := by
        intro hst
        have hrow_st := hC.completed (by simp [World.runStatusOf, hrun, hst]) i row hrow hr
        rcases hch.outside with ⟨s, c, v, pc, rfl, he, hp⟩ | hout
        · -- its execution holds a succeeded item: only grading can still fail it
          have hne := hC.held i _ _ row (.worker he hp) hrow hr
          have hsucc := hrow_st.resolve_right hne
          have hfit := (hI.fits i _ _ _ (.worker he hp) hrow).status
          cases hch with
          | keep => exact hrow_st
          | markFailed | markCancelled => exact Or.inr rfl
          | markRunning hw | markDeadLettered hw =>
            have := (hI.fits i _ _ _ (.worker hw rfl) hrow).status
            simp [Phase.allows, Pc.allows, hsucc] at this
          | finalise => exact Or.inl rfl
          | abort => exact Or.inr rfl
        · rcases hC.keep_of_outside hI hs hcan hab hrow hr hout with rfl | ⟨hd, -⟩
          · exact hrow_st
          · rcases hrow_st with h | h <;> exact absurd (hd.symm.trans h) (by simp)
      cases hchr with
      | keep | rollup => exact already hdone
      | checkCompleted he hv hrem _ hdead =>
        obtain ⟨hitems, -⟩ := step_of_check hs he
        rw [hitems, hrow] at hrow'
        obtain rfl := Option.some.inj hrow'
        have hact := remaining_eq_zero.mp hrem i row hrow hr
        have hnd : row.status ≠ .deadLettered := by
          intro hd
          have := hasDeadLetter_iff.mpr ⟨i, row, hrow, hr, hd⟩
          exact absurd (hdead.symm.trans this) (by simp)
        revert hact hnd
        cases row.status <;> simp [RunItemStatus.isActive, RunItemStatus.isTerminal]
      | _ => exact absurd hdone (by simp)

/-- A failed run keeps its dead letter: to take it up again a replay reopens the run. -/
theorem Clean.failed_step {l : Label σ η} {r : RunId} (hI : Once cfg w) (hC : Clean w r)
    (hs : step cfg w l = some w') (hab : abortsRun cfg r (w, l) = false)
    (hst' : w'.runStatusOf r = some .failed) :
    ∃ i row', w'.store.db.items.get i = some row' ∧ row'.evalRunId = r ∧
      row'.status = .deadLettered := by
  obtain ⟨run', hrun', hfail⟩ := Option.map_eq_some_iff.mp hst'
  cases hrun : w.store.db.runs.get r with
  | none =>
    obtain ⟨_, _, itemIds, _, -, -, -, -, -, hst⟩ := step_run_new hs hrun' hrun
    split at hst <;> exact absurd (hst.1.symm.trans hfail) (by simp)
  | some run =>
    have hchr := runChange hs hrun hrun'
    have already : run.status = .failed → ∃ i row', w'.store.db.items.get i = some row' ∧
        row'.evalRunId = r ∧ row'.status = .deadLettered := by
      intro hst
      obtain ⟨i, row, hrow, hr, hd⟩ := hC.failed (by simp [World.runStatusOf, hrun, hst])
      obtain ⟨row', hrow', hch⟩ := step_item hs hrow
      cases outside_of_free (hI.dead i row hrow hd).2 hch with
      | keep => exact ⟨i, _, hrow', hr, hd⟩
      | abort _ _ _ _ hq | cancel _ hq => exact absurd (hd.symm.trans hq) (by simp)
      | @requeue h now r' hx _ =>
        have hr' : row.evalRunId = r' := by
          simpa [World.runOf, hrow] using hI.sane.replaying h _ i r' hx rfl
        obtain rfl : r' = r := hr'.symm.trans hr
        rw [(step_of_replay hs hx).2.1, hrun] at hrun'
        simp only [hst, and_self, if_true, Option.map_some, Option.some.injEq] at hrun'
        rw [← hrun'] at hfail
        exact absurd hfail (by simp)
    cases hchr with
    | keep | rollup => exact already hfail
    | abort he hv hover =>
      simp [abortsRun, World.mover, he, hv, hrun, hover] at hab
    | checkFailed he hv _ _ hdead =>
      obtain ⟨i, row, hrow, hr, hd⟩ := hasDeadLetter_iff.mp hdead
      exact ⟨i, row, by rw [(step_of_check hs he).1]; exact hrow, hr, hd⟩
    | _ => exact absurd hfail (by simp)

theorem clean_step {l : Label σ η} {r : RunId} (hI : Once cfg w) (hok : Calm w l) (hC : Clean w r)
    (hs : step cfg w l = some w') (hcan : cancelsRun cfg r (w, l) = false)
    (hab : abortsRun cfg r (w, l) = false) : Clean w' r where
  not_cancelled := by
    intro h
    simp [cancelsRun, hs, h, hC.not_cancelled] at hcan
  held _ _ _ _ := hC.held_step hI hok hs hcan hab
  completed hst _ _ := hC.completed_step hI hs hcan hab hst
  failed := hC.failed_step hI hs hab

/-- What calm schedules keep. -/
structure Orderly (cfg : Config) (tr : List (World σ η × Label σ η)) (w : World σ η) : Prop where
  once : Once cfg w
  progress : Progress w
  clean : ∀ r, Undisturbed cfg tr r → Clean w r

theorem orderly_init : Orderly cfg [] (World.init : World σ η) where
  once := once_init
  progress r run h := absurd h (by simp [World.init, Db.empty])
  clean r _ :=
    { not_cancelled := by simp [World.runStatusOf, World.init, Db.empty]
      held := fun i a p row _ h => absurd h (by simp [World.init, Db.empty])
      completed := fun h => absurd h (by simp [World.runStatusOf, World.init, Db.empty])
      failed := fun h => absurd h (by simp [World.runStatusOf, World.init, Db.empty]) }

theorem orderly_step {tr : List (World σ η × Label σ η)} {l : Label σ η}
    (hI : Orderly cfg tr w) (hok : Calm w l) (hs : step cfg w l = some w') :
    Orderly cfg (tr ++ [(w, l)]) w' where
  once := once_step hI.once hok hs
  progress := progress_step hI.once hok hI.progress hs
  clean r hr := by
    obtain ⟨hr, hcan, hab⟩ := hr.snoc
    exact clean_step hI.once hok (hI.clean r hr) hs hcan hab

theorem orderly_of_run {tr : List (World σ η × Label σ η)} (h : Run (step cfg) World.init tr w)
    (hok : Along Calm tr) : Orderly cfg tr w :=
  h.induct (J := Orderly cfg) orderly_init (fun _ _ _ _ hI hok hs => orderly_step hI hok hs)
    hok.follows

/-! ## 4. Runs nobody works on -/

/-- No message, no execution and no publication is left for an item of the run. -/
def Quiet (w : World σ η) (r : RunId) : Prop :=
  ∀ i, w.runOf i = some r → i ∉ w.store.queue ∧ (∀ s e, w.workers s = some e → e.rid ≠ i) ∧
    ∀ h x, w.handlers h = some x → i ∉ x.owes

theorem Quiet.not_holds {σ η : Type} {w : World σ η}
    {r : RunId} (hq : Quiet w r) {i : ItemId} (hi : w.runOf i = some r)
    (a : Holder σ η) (p : Phase) : ¬ w.Holds i a p := by
  obtain ⟨hm, hw, hh⟩ := hq i hi
  intro ha
  cases ha with
  | message h => exact hm h
  | worker h _ => exact hw _ _ h rfl
  | request hx hi => exact hh _ _ hx hi

/-- What is left when nobody works on a run any more. -/
theorem settled_of_quiet {σ η : Type} {w : World σ η}
    (hO : Once cfg w) (hP : Progress w) {r : RunId} {run : EvalRun}
    (hr : w.store.db.runs.get r = some run) (hq : Quiet w r) :
    (∀ i row, w.store.db.items.get i = some row → row.evalRunId = r →
        row.status.isActive = false) ∧
      (run.status = .completed ∨ run.status = .failed ∨ run.status = .cancelled) := by
  have hidle : ∀ i row, w.store.db.items.get i = some row → row.evalRunId = r →
      row.status.isActive = false := by
    intro i row hrow hir
    -- an active item is somebody's
    cases hact : row.status.isActive with
    | false => rfl
    | true =>
      obtain ⟨a, p, ha⟩ := hO.active i row hrow hact
      exact absurd ha (hq.not_holds (by simp [World.runOf, hrow, hir]) a p)
  refine ⟨hidle, ?_⟩
  have hnp := hO.sane.not_pending r run hr
  cases hst : run.status with
  | completed | failed | cancelled => simp
  | pending => exact absurd hst hnp
  | running =>
    rcases hP r run hr hst with ⟨i, row, hrow, hir, hact⟩ | ⟨s, i, v, pc, he, hv, -⟩
    · exact absurd hact (by simp [hidle i row hrow hir])
    · obtain ⟨row, hrow, hvr, -⟩ := hO.sane.loaded s i v pc he
      have hi : w.runOf i = some r := by simp [World.runOf, hrow, ← hvr, hv]
      exact absurd rfl ((hq i hi).2.1 s _ he)

/-- The verdict on an undisturbed run: failed exactly when there is a dead letter. -/
theorem verdict_of_quiet {σ η : Type} {w : World σ η}
    (hO : Once cfg w) (hP : Progress w) {r : RunId} (hC : Clean w r)
    {run : EvalRun} (hr : w.store.db.runs.get r = some run) (hq : Quiet w r) :
    run.status = if hasDeadLetter w.store.db r then .failed else .completed := by
  have hstatus : w.runStatusOf r = some run.status := by simp [World.runStatusOf, hr]
  rcases (settled_of_quiet hO hP hr hq).2 with hst | hst | hst
  · have hno : hasDeadLetter w.store.db r = false := by
      rw [Bool.eq_false_iff]
      intro hd
      obtain ⟨i, row, hrow, hir, hd⟩ := hasDeadLetter_iff.mp hd
      rcases hC.completed (by rw [hstatus, hst]) i row hrow hir with h | h <;>
        exact absurd (hd.symm.trans h) (by simp)
    simp [hst, hno]
  · have hd := hasDeadLetter_iff.mpr (hC.failed (by rw [hstatus, hst]))
    simp [hst, hd]
  · exact absurd (by rw [hstatus, hst]) hC.not_cancelled

/-! ## 5. Replays that do not overlap -/

/-- The item a replay request is about, from its first read to its publication. -/
def Handler.replayItem : Handler → Option ItemId
  | .replayReadRun i _ | .replayCommit i _ | .replayEnqueue i => some i
  | _ => none

/-- The item a label opens a replay request for. -/
def Label.replays : Label σ η → Option ItemId
  | .replay _ i => some i
  | _ => none

/-- The schedule is reliable, and a replay of an item is requested only while no other one is
being answered. -/
def Separate (w : World σ η) (l : Label σ η) : Prop :=
  l.isReliable = true ∧
    ∀ i ∈ l.replays, ∀ h, (w.handlers h).bind Handler.replayItem ≠ some i

instance [Fintype η] (w : World σ η) (l : Label σ η) : Decidable (Separate w l) :=
  inferInstanceAs (Decidable (l.isReliable = true ∧
    ∀ i ∈ l.replays, ∀ h, (w.handlers h).bind Handler.replayItem ≠ some i))

/-- Replay requests for an item are alone, and the item waits for them. -/
structure Separated (w : World σ η) : Prop where
  one : ∀ h h' x x' i, w.handlers h = some x → w.handlers h' = some x' →
    x.replayItem = some i → x'.replayItem = some i → h = h'
  dead : ∀ h x i r, w.handlers h = some x → x.replays = some (i, r) →
    w.statusOf i = some .deadLettered

theorem Separated.calm {σ η : Type} {w : World σ η}
    {l : Label σ η} (hD : Separated w) (hok : Separate w l) : Calm w l := by
  refine ⟨hok.1, ?_⟩
  intro i hi
  unfold replayed at hi
  split at hi
  · split at hi
    · rename_i j r hx
      obtain rfl : j = i := by simpa using hi
      exact hD.dead _ _ j r hx rfl
    · exact absurd hi (by simp)
  · exact absurd hi (by simp)

theorem Handler.replayItem_of_replays {x : Handler} {i : ItemId} {r : RunId}
    (h : x.replays = some (i, r)) : x.replayItem = some i := by
  cases x with
  | replayReadRun | replayCommit =>
    obtain ⟨rfl, -⟩ := Prod.mk.inj (Option.some.inj h)
    rfl
  | _ => exact absurd h (by simp [Handler.replays])

/-- A request stays about its item. -/
theorem stepHandler_replayItem {m : Backend} {now : Timestamp} {x x' : Handler} {i : ItemId}
    (h : (stepHandler m now x).2 = some x') (hi : x'.replayItem = some i) :
    x.replayItem = some i := by
  cases stepHandler_next h with
  | enqueue => exact absurd hi (by simp [Handler.replayItem])
  | readRun | commit => exact hi

/-- A replay request after a separate step was there before, or has just been opened. -/
theorem replayItem_origin {l : Label σ η} (hs : step cfg w l = some w') {h : η} {x' : Handler}
    {i : ItemId} (hx' : w'.handlers h = some x') (hi : x'.replayItem = some i) :
    (∃ x, w.handlers h = some x ∧ x.replayItem = some i) ∨ l = .replay h i := by
  cases step_request hs hx' with
  | stayed hw _ => exact Or.inl ⟨x', hw, hi⟩
  | created _ hx => subst hx; exact absurd hi (by simp [Handler.replayItem])
  | cancelling _ _ hx => subst hx; exact absurd hi (by simp [Handler.replayItem])
  | replaying _ _ hx =>
    subst hx
    obtain rfl := Option.some.inj hi
    exact Or.inr rfl
  | moved hw hn => exact Or.inl ⟨_, hw, stepHandler_replayItem hn hi⟩

/-- Requests for one item stay alone, and while one is open nobody else can move the dead letter. -/
theorem separated_step {l : Label σ η} (hI : Once cfg w) (hD : Separated w) (hok : Separate w l)
    (hs : step cfg w l = some w') : Separated w' where
  one := by
    intro h h' x x' i hx hx' hi hi'
    have fresh : ∀ {h h' : η} {x : Handler}, l = .replay h i → w.handlers h' = some x →
        x.replayItem = some i → False := by
      rintro h h' x rfl hx hi
      exact hok.2 i (by simp [Label.replays]) h' (by simp [hx, hi])
    rcases replayItem_origin hs hx hi with ⟨y, hy, hyi⟩ | rfl
    · rcases replayItem_origin hs hx' hi' with ⟨y', hy', hyi'⟩ | rfl
      · exact hD.one h h' y y' i hy hy' hyi hyi'
      · exact (fresh rfl hy hyi).elim
    · rcases replayItem_origin hs hx' hi' with ⟨y', hy', hyi'⟩ | hl
      · exact (fresh rfl hy' hyi').elim
      · exact (Label.replay.inj hl).1
  dead := by
    intro h x i r hx hk
    -- the request was about the item before, and so no other request is replaying it
    have stays : ∀ y, w.handlers h = some y → y.replays = some (i, r) →
        (∀ now, l = .handler h now → False) ∨ w'.statusOf i = w.statusOf i →
        w'.statusOf i = some .deadLettered := by
      intro y hy hyk hor
      have hd := hD.dead h y i r hy hyk
      obtain ⟨row, hrow, hst⟩ := Option.map_eq_some_iff.mp hd
      obtain ⟨row', hrow', hch⟩ := step_item hs hrow
      cases outside_of_free (hI.dead i row hrow hst).2 hch with
      | keep => simp [World.statusOf, hrow', hst]
      | abort _ _ _ _ hq | cancel _ hq => exact absurd (hst.symm.trans hq) (by simp)
      | @requeue h₂ now r' hx₂ _ =>
        obtain rfl := hD.one h h₂ y _ i hy hx₂ (Handler.replayItem_of_replays hyk) rfl
        rcases hor with hno | hsame
        · exact (hno now rfl).elim
        · rw [hsame]; exact hd
    cases step_request hs hx with
    | stayed hw hl => exact stays x hw hk (Or.inl fun now h => hl now h)
    | created _ hx => subst hx; exact absurd hk (by simp [Handler.replays])
    | cancelling _ _ hx => subst hx; exact absurd hk (by simp [Handler.replays])
    | replaying _ hc hx =>
      subst hx
      obtain ⟨rfl, rfl⟩ := Prod.mk.inj (Option.some.inj hk)
      obtain ⟨row, hrow, hst, -⟩ := replayReadItem_ok hc
      rw [World.statusOf, (step_quiet hs rfl).1, hrow, Option.map_some, hst]
    | @moved now y hw hn =>
      have hyk := stepHandler_replays hn hk
      refine stays y hw hyk (Or.inr ?_)
      obtain ⟨z, hz, rfl⟩ := step_handler_eq hs
      obtain rfl := Option.some.inj (hw.symm.trans hz)
      cases y with
      | replayReadRun j r' =>
        simp only [World.statusOf, World.setHandler_store, stepHandler]
        split <;> rfl
      | replayCommit j r' =>
        obtain rfl := Option.some.inj hn
        exact absurd hk (by simp [Handler.replays])
      | _ => exact absurd hyk (by simp [Handler.replays])

/-- Schedules whose replays do not overlap are calm. -/
theorem calm_of_separate {tr : List (World σ η × Label σ η)} (h : Run (step cfg) World.init tr w)
    (hok : Along Separate tr) : Along Calm tr := by
  have key : ∀ {tr : List (World σ η × Label σ η)} {w : World σ η},
      Run (step cfg) World.init tr w → Along Separate tr → Once cfg w ∧ Separated w := by
    intro tr w h hok
    refine h.invariant (I := fun w => Once cfg w ∧ Separated w) ?_ hok
      ⟨once_init, ⟨fun _ _ _ _ _ h => absurd h (by simp [World.init]),
        fun _ _ _ _ h => absurd h (by simp [World.init])⟩⟩
    rintro w l w' ⟨hI, hD⟩ hok hs
    exact ⟨once_step hI (hD.calm hok) hs, separated_step hI hD hok hs⟩
  intro p hp
  obtain ⟨a, b, rfl⟩ := List.append_of_mem hp
  exact (key h.at.1 (Along.append.mp hok).1).2.calm (hok p hp)

/-- Nobody at all is at work. -/
def World.isIdle [Fintype σ] [Fintype η] (w : World σ η) : Bool :=
  w.store.queue.isEmpty && decide (∀ s, w.workers s = none) && decide (∀ h, w.handlers h = none)

theorem quiet_of_isIdle {σ η : Type} {w : World σ η}
    [Fintype σ] [Fintype η] (h : w.isIdle = true) (r : RunId) :
    Quiet w r := by
  intro i _
  simp only [World.isIdle, Bool.and_eq_true, List.isEmpty_iff, decide_eq_true_eq] at h
  exact ⟨by simp [h.1.1], by simp [h.1.2], by simp [h.2]⟩

end EvalHarness
