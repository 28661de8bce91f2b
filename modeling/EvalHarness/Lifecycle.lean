/-
# The life of a run

Five code paths write a run's status, `completed_at` and `error`: `create_eval_run`, the spend
abort, the completion check, cancel and replay.  Whatever the order, with redeliveries, deaths and
requests that break off included, a run moves along four edges,

    running -> completed,  running -> failed,  running -> cancelled,  failed -> running,

the last one by a replay only, and the two other columns follow the status.
-/
import EvalHarness.WellFormed

namespace EvalHarness

open Lts

variable {σ η : Type} [DecidableEq σ] [DecidableEq η] {cfg : Config} {w w' : World σ η}

/-! ## 1. The edges and the columns -/

/-- The edges a run's status moves along, over the transition of a label. -/
inductive StatusEdge (w : World σ η) (r : RunId) :
    Label σ η → EvalRunStatus → EvalRunStatus → Prop
  | complete {l} : StatusEdge w r l .running .completed
  | fail {l} : StatusEdge w r l .running .failed
  | cancel {l} : StatusEdge w r l .running .cancelled
  | reopen {h now i} (hh : w.handlers h = some (.replayCommit i r)) :
      StatusEdge w r (.handler h now) .failed .running

/-- A run in this status is over, until a replay perhaps. -/
def EvalRunStatus.isOver (s : EvalRunStatus) : Prop := s = .completed ∨ s = .failed ∨ s = .cancelled

/-- The columns agree with the status.  No path stores the default `pending`. -/
structure EvalRun.Coherent (run : EvalRun) : Prop where
  started : run.status ≠ .pending
  stamped : run.completedAt.isSome ↔ run.status.isOver
  error : run.error.isSome → run.status = .failed

/-- Every stored run is coherent. -/
def RunsCoherent (w : World σ η) : Prop :=
  ∀ r run, w.store.db.runs.get r = some run → run.Coherent

/-! ## 2. One change of a row -/

/-- A change of a coherent row moves along an edge, or leaves the status alone. -/
theorem RunChange.edge {σ η : Type} {w : World σ η} {r : RunId} {run run' : EvalRun} {l : Label σ η}
    (hC : run.Coherent) (h : RunChange cfg w r run l run') :
    run'.status = run.status ∨ StatusEdge w r l run.status run'.status := by
  cases h with
  | keep => exact Or.inl rfl
  | rollup => exact Or.inl rfl
  | abort hw hv hover =>
    simp only [overBudget, Bool.and_eq_true, beq_iff_eq] at hover
    exact Or.inr (hover.1 ▸ .fail)
  | checkFailed hw hv hrem hst hdead => exact Or.inr (hst ▸ .fail)
  | checkCompleted hw hv hrem hst hdead => exact Or.inr (hst ▸ .complete)
  | cancel hh hst => exact Or.inr (hst.resolve_left hC.started ▸ .cancel)
  | reopen hh hst => exact Or.inr (hst ▸ .reopen hh)

/-- An open row carries no error. -/
theorem EvalRun.Coherent.no_error {run : EvalRun} (hC : run.Coherent)
    (h : run.status ≠ .failed) : run.error = none := by
  cases he : run.error with
  | none => rfl
  | some e => exact absurd (hC.error (by simp [he])) h

/-- Every change keeps the columns in step with the status. -/
theorem RunChange.coherent {σ η : Type} {w : World σ η}
    {r : RunId} {run run' : EvalRun} {l : Label σ η}
    (hC : run.Coherent) (h : RunChange cfg w r run l run') : run'.Coherent := by
  cases h with
  | keep => exact hC
  | rollup => exact ⟨hC.started, hC.stamped, hC.error⟩
  | abort => exact ⟨by simp, by simp [EvalRunStatus.isOver], fun _ => rfl⟩
  | checkFailed => exact ⟨by simp, by simp [EvalRunStatus.isOver], fun _ => rfl⟩
  | checkCompleted hw hv hrem hst hdead =>
    have hne : run.error = none := hC.no_error (by simp [hst])
    exact ⟨by simp, by simp [EvalRunStatus.isOver], by simp [hne]⟩
  | cancel hh hst =>
    have hne : run.error = none := hC.no_error (by rcases hst with h | h <;> simp [h])
    exact ⟨by simp, by simp [EvalRunStatus.isOver], by simp [hne]⟩
  | reopen => exact ⟨by simp, by simp [EvalRunStatus.isOver], by simp⟩

/-! ## 3. Every run of the system -/

theorem runsCoherent_step {l : Label σ η} (hI : RunsCoherent w) (hs : step cfg w l = some w') :
    RunsCoherent w' := by
  intro r run' hrun'
  cases hrun : w.store.db.runs.get r with
  | some run =>
    have hch := runChange hs hrun hrun'
    exact hch.coherent (hI r run hrun)
  | none =>
    obtain ⟨_, _, itemIds, _, -, -, -, -, herr, hst⟩ := step_run_new hs hrun' hrun
    split at hst
    · exact ⟨by simp [hst.1], by simp [hst.1, hst.2, EvalRunStatus.isOver], by simp [herr]⟩
    · exact ⟨by simp [hst.1], by simp [hst.1, hst.2, EvalRunStatus.isOver], by simp [herr]⟩

theorem runsCoherent_of_run {tr : List (World σ η × Label σ η)}
    (h : Run (step cfg) World.init tr w) : RunsCoherent w :=
  h.invariant (I := RunsCoherent) (fun _ _ _ hI _ hs => runsCoherent_step hI hs)
    (show Along (fun _ _ => True) tr from fun _ _ => trivial)
    (fun r run hr => absurd hr (by simp [World.init, Db.empty]))

/-- The status of a stored run moves along an edge or stays. -/
theorem step_runStatus {l : Label σ η} (hI : RunsCoherent w) (hs : step cfg w l = some w')
    {r : RunId} {st : EvalRunStatus} (hst : w.runStatusOf r = some st) :
    ∃ st', w'.runStatusOf r = some st' ∧ (st' = st ∨ StatusEdge w r l st st') := by
  obtain ⟨run, hrun, rfl⟩ := Option.map_eq_some_iff.mp hst
  obtain ⟨run', hrun', hch⟩ := step_run hs hrun
  exact ⟨run'.status, by simp [World.runStatusOf, hrun'], hch.edge (hI r run hrun)⟩

/-- Nothing leaves `completed` or `cancelled`. -/
theorem runStatus_stays {tr : List (World σ η × Label σ η)} (hI : RunsCoherent w)
    (h : Run (step cfg) w tr w') {r : RunId} {st : EvalRunStatus}
    (hfin : st = .completed ∨ st = .cancelled) (hst : w.runStatusOf r = some st) :
    w'.runStatusOf r = some st := by
  have key : RunsCoherent w' ∧ w'.runStatusOf r = some st := by
    refine h.stable (I := fun v => RunsCoherent v ∧ v.runStatusOf r = some st) ?_ ⟨hI, hst⟩
    rintro v l v' ⟨hv, hvst⟩ hs
    refine ⟨runsCoherent_step hv hs, ?_⟩
    obtain ⟨st', hst', rfl | hedge⟩ := step_runStatus hv hs hvst
    · exact hst'
    · rcases hfin with rfl | rfl <;> exact absurd hedge (by rintro ⟨⟩)
  exact key.2

/-- **Run lifecycle.**  In every run of the system: a transition moves the status of a stored run
along one of the four edges, the one back to `running` being a replay's; `completed` and
`cancelled` are never left; and wherever the run gets to, `completed_at` is set exactly when the
status is final and `error` only when it is `failed`. -/
theorem run_lifecycle {tr : List (World σ η × Label σ η)} (hrun : Run (step cfg) World.init tr w) :
    (∀ a l b v, tr = a ++ (v, l) :: b → ∃ v', step cfg v l = some v' ∧
      ∀ r st, v.runStatusOf r = some st →
        ∃ st', v'.runStatusOf r = some st' ∧ (st' = st ∨ StatusEdge v r l st st')) ∧
    (∀ a b, tr = a ++ b → ∃ v, Run (step cfg) World.init a v ∧
      ∀ r st, st = .completed ∨ st = .cancelled → v.runStatusOf r = some st →
        w.runStatusOf r = some st) ∧
    ∀ r run, w.store.db.runs.get r = some run →
      (run.completedAt.isSome ↔ run.status.isOver) ∧ (run.error.isSome → run.status = .failed) := by
  refine ⟨?_, ?_, ?_⟩
  · intro a l b v htr
    obtain ⟨hv, v', hs, -⟩ := (htr ▸ hrun).at
    exact ⟨v', hs, fun r st hst => step_runStatus (runsCoherent_of_run hv) hs hst⟩
  · intro a b htr
    obtain ⟨v, hv, hb⟩ := (htr ▸ hrun).split
    exact ⟨v, hv, fun r st hfin hst => runStatus_stays (runsCoherent_of_run hv) hb hfin hst⟩
  · intro r run hr
    have hC := runsCoherent_of_run hrun r run hr
    exact ⟨hC.stamped, hC.error⟩

/-- A run is failed by its dead letter, reopened by a replay and completed. -/
theorem run_lifecycle_small : ∃ (tr : List (World Nat Nat × Label Nat Nat)) (w : World Nat Nat),
    Run (step (smallConfig 1 1 5000000)) World.init tr w ∧
      (∃ p ∈ tr, p.1.runStatusOf 0 = some .failed) ∧ w.runStatusOf 0 = some .completed ∧
      ∀ r run, w.store.db.runs.get r = some run →
        (run.completedAt.isSome ↔ run.status.isOver) ∧
          (run.error.isSome → run.status = .failed) := by
  obtain ⟨tr, w, hrun, -, htest⟩ := exists_run_of_play
    (step (smallConfig 1 1 5000000)) (World.init : World Nat Nat) (fun _ _ => true)
    (launch 0 1 ++ [.deliver 0 0] ++ execs 0 declines 6 ++ [.replay 0 0] ++
      List.replicate 3 (.handler 0 0) ++ [.deliver 0 0] ++ execs 0 answers 11)
    (fun tr w => tr.any (fun p => p.1.runStatusOf 0 == some .failed) &&
      w.runStatusOf 0 == some .completed)
    (by decide)
  simp only [Bool.and_eq_true, List.any_eq_true, beq_iff_eq] at htest
  exact ⟨tr, w, hrun, htest.1, htest.2, (run_lifecycle hrun).2.2⟩

end EvalHarness
