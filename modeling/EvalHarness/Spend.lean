/-
# The spend limit

The limit is enforced behind the spending: an execution commits its cost, and only in a later
transaction asks whether the run is over its limit.  Two things follow.

Between the two transactions the run is over its limit and still `running`.  Somebody is on the
way to abort it (`SpendInv.covered`), but a completion check that comes first completes it;
`over_budget_not_completed` says that this, and a replay that reopens such a run, are the only
ways for an over-budget run to be `completed`.

And every worker slot can add the cost of one more completion before it notices:
`spend_overshoot` bounds what a run can cost by its limit and one completion a slot.
-/
import EvalHarness.Progress
import Mathlib.Data.Fintype.Card
import Mathlib.Tactic.Linarith

namespace EvalHarness

open Lts

variable {σ η : Type} [DecidableEq σ] [DecidableEq η] {cfg : Config} {w w' : World σ η}

/-! ## 1. Between rollup and spend check -/

/-- The run an execution is about to check the spending of. -/
def Phase.spendCheck : Phase → Option RunId
  | .at v (.abortCheck _) => some v.evalRunId
  | _ => none

/-- An execution of the run stands between its rollup and its spend check. -/
def BeforeSpendCheck (w : World σ η) (r : RunId) : Prop :=
  ∃ s, (w.workers s).bind (fun e => e.phase.spendCheck) = some r

instance [Fintype σ] (w : World σ η) (r : RunId) : Decidable (BeforeSpendCheck w r) :=
  inferInstanceAs (Decidable (∃ s, (w.workers s).bind (fun e => e.phase.spendCheck) = some r))

/-- The run is over its limit. -/
def overspent (cfg : Config) (w : World σ η) (r : RunId) : Bool :=
  (w.store.db.runs.get r).any fun run => decide (cfg.spendLimit.amount < run.totalCostUsd)

/-- The run whose completion check commits and counts no active item. -/
def checking (p : World σ η × Label σ η) : Option RunId :=
  match p.1.mover p.2 with
  | some ⟨_, .at v (.maybeComplete _)⟩ =>
    if remaining p.1.store.db v.evalRunId = 0 then some v.evalRunId else none
  | _ => none

/-- The run a replay's transaction is about. -/
def reopening (p : World σ η × Label σ η) : Option RunId :=
  match p.2 with
  | .handler h _ =>
    match p.1.handlers h with
    | some (.replayCommit _ r) => some r
    | _ => none
  | _ => none

/-- No completion check finds the items of an over-budget run done between a rollup and its spend
check. -/
def ChecksInTime (cfg : Config) (w : World σ η) (l : Label σ η) : Prop :=
  ∀ r ∈ checking (w, l), ¬ (overspent cfg w r = true ∧ BeforeSpendCheck w r)

/-- No replay reopens a run that a spend abort has failed, or that is over its limit. -/
def ReopensWithin (cfg : Config) (w : World σ η) (l : Label σ η) : Prop :=
  ∀ r ∈ reopening (w, l), overspent cfg w r = false ∧
    (w.store.db.runs.get r).bind EvalRun.error = none

instance [Fintype σ] (w : World σ η) (l : Label σ η) : Decidable (ChecksInTime cfg w l) :=
  inferInstanceAs
    (Decidable (∀ r ∈ checking (w, l), ¬ (overspent cfg w r = true ∧ BeforeSpendCheck w r)))

instance (w : World σ η) (l : Label σ η) : Decidable (ReopensWithin cfg w l) :=
  inferInstanceAs (Decidable (∀ r ∈ reopening (w, l), overspent cfg w r = false ∧
    (w.store.db.runs.get r).bind EvalRun.error = none))

theorem overspent_iff {σ η : Type} {w : World σ η}
    {r : RunId} {run : EvalRun} (hr : w.store.db.runs.get r = some run) :
    overspent cfg w r = true ↔ cfg.spendLimit.amount < run.totalCostUsd := by
  simp [overspent, hr]

/-- An execution before its spend check stays there, or checks. -/
theorem BeforeSpendCheck.step {l : Label σ η} (hok : l.isReliable = true)
    (hs : step cfg w l = some w') {r : RunId} {run run' : EvalRun} (h : BeforeSpendCheck w r)
    (hr : w.store.db.runs.get r = some run) (hr' : w'.store.db.runs.get r = some run')
    (hst : run.status = .running) (hover : cfg.spendLimit.amount < run.totalCostUsd)
    (hst' : run'.status = .running) : BeforeSpendCheck w' r := by
  obtain ⟨s, hs₀⟩ := h
  obtain ⟨⟨i, p⟩, he, hp⟩ := Option.bind_eq_some_iff.mp hs₀
  by_cases hl : l.Spares s
  · exact ⟨s, by simp [step_worker_stays hs he hl, hp]⟩
  cases p with
  | start => exact absurd hp (by simp [Phase.spendCheck])
  | «at» v pc =>
    cases pc with
    | abortCheck res =>
      obtain rfl : v.evalRunId = r := by simpa [Phase.spendCheck] using hp
      obtain ⟨c, rfl⟩ := Label.exec_of_reliable hok hl
      have hob : overBudget cfg.spendLimit run = true := by simp [overBudget, hst, hover]
      have hget := (step_of_abort hs he hr hob).2.1 v.evalRunId
      rw [hr, hr'] at hget
      simp only [hob, and_self, if_true, Option.map_some, Option.some.injEq] at hget
      rw [hget] at hst'
      exact absurd hst' (by simp)
    | _ => exact absurd hp (by simp [Phase.spendCheck])

/-! ## 2. Disturbed runs stay out of the way -/

/-- A run that was cancelled or aborted is still cancelled, or failed with the abort's error. -/
def Dismissed (w : World σ η) (r : RunId) : Prop :=
  ∃ run, w.store.db.runs.get r = some run ∧
    (run.status = .cancelled ∨ run.status = .failed ∧ run.error ≠ none)

theorem dismissed_step {l : Label σ η} (hok : ReopensWithin cfg w l)
    (hs : step cfg w l = some w') {r : RunId} (h : Dismissed w r) : Dismissed w' r := by
  obtain ⟨run, hr, hst⟩ := h
  obtain ⟨run', hr', hch⟩ := step_run hs hr
  refine ⟨run', hr', ?_⟩
  rcases hst with hst | ⟨hst, herr⟩
  · exact Or.inl (hch.cancelled hst)
  · cases hch with
    | keep | rollup => exact Or.inr ⟨hst, herr⟩
    | abort _ _ hover => simp [overBudget, hst] at hover
    | checkFailed _ _ _ hrun | checkCompleted _ _ _ hrun =>
      exact absurd (hst.symm.trans hrun) (by simp)
    | cancel _ hrun => rcases hrun with hrun | hrun <;> exact absurd (hst.symm.trans hrun) (by simp)
    | reopen hx _ =>
      have := (hok r (by simp [reopening, hx])).2
      rw [hr] at this
      exact absurd this herr

/-- The step that disturbs a run dismisses it. -/
theorem dismissed_of_disturbed {l : Label σ η} (hs : step cfg w l = some w') {r : RunId}
    (h : cancelsRun cfg r (w, l) = true ∨ abortsRun cfg r (w, l) = true) : Dismissed w' r := by
  rcases h with hcan | hab
  · simp only [cancelsRun, hs, Bool.and_eq_true, beq_iff_eq] at hcan
    obtain ⟨run', hr', hst'⟩ := Option.map_eq_some_iff.mp hcan.2
    exact ⟨run', hr', Or.inl hst'⟩
  · unfold abortsRun at hab
    split at hab
    · rename_i i v res he
      simp only [Bool.and_eq_true, beq_iff_eq] at hab
      obtain ⟨rfl, hover⟩ := hab
      obtain ⟨run, hr, hover⟩ := (Option.any_eq_true ..).mp hover
      cases l with
      | exec s c =>
        refine ⟨_, ((step_of_abort hs he hr hover).2.1 _).trans (by rw [hr]; rfl), Or.inr ?_⟩
        simp [hover]
      | _ => exact absurd he (by simp [World.mover])
    · exact absurd hab (by simp)

theorem disturbed_snoc {tr : List (World σ η × Label σ η)} {r : RunId} {p : World σ η × Label σ η}
    (h : ¬ Undisturbed cfg (tr ++ [p]) r) :
    ¬ Undisturbed cfg tr r ∨ cancelsRun cfg r p = true ∨ abortsRun cfg r p = true := by
  by_contra hno
  push Not at hno
  obtain ⟨hund, hcan, hab⟩ := hno
  refine h fun q hq => ?_
  rcases List.mem_append.mp hq with hq | hq
  · exact hund q hq
  · rw [List.mem_singleton.mp hq]
    simpa using And.intro hcan hab

/-- What the spending results start from. -/
structure SpendBase (cfg : Config) (tr : List (World σ η × Label σ η)) (w : World σ η) :
    Prop where
  orderly : Orderly cfg tr w
  dismissed : ∀ r, ¬ Undisturbed cfg tr r → Dismissed w r

theorem spendBase_init : SpendBase cfg [] (World.init : World σ η) :=
  ⟨orderly_init, fun _ h => absurd (fun _ hp => absurd hp (by simp)) h⟩

theorem spendBase_step {tr : List (World σ η × Label σ η)} {l : Label σ η}
    (hI : SpendBase cfg tr w) (hcalm : Calm w l) (hok : ReopensWithin cfg w l)
    (hs : step cfg w l = some w') : SpendBase cfg (tr ++ [(w, l)]) w' := by
  refine ⟨orderly_step hI.orderly hcalm hs, fun r hr => ?_⟩
  rcases disturbed_snoc hr with h | h
  · exact dismissed_step hok hs (hI.dismissed r h)
  · exact dismissed_of_disturbed hs h

/-- A completed run is undisturbed. -/
theorem SpendBase.clean_of_completed {tr : List (World σ η × Label σ η)}
    (hI : SpendBase cfg tr w) {r : RunId} {run : EvalRun} (hr : w.store.db.runs.get r = some run)
    (hst : run.status = .completed) : Clean w r := by
  refine hI.orderly.clean r ?_
  by_contra hund
  obtain ⟨run₁, hr₁, h | ⟨h, -⟩⟩ := hI.dismissed r hund <;>
    obtain rfl := Option.some.inj (hr.symm.trans hr₁) <;>
    exact absurd (hst.symm.trans h) (by simp)

/-- Nothing is rolled up onto a completed run. -/
theorem SpendBase.not_running_of_completed {tr : List (World σ η × Label σ η)}
    (hI : SpendBase cfg tr w) {r : RunId} {run : EvalRun} (hr : w.store.db.runs.get r = some run)
    (hst : run.status = .completed) {i : ItemId} {row : RunItem}
    (hrow : w.store.db.items.get i = some row) (hir : row.evalRunId = r) :
    row.status = .succeeded ∨ row.status = .failed :=
  (hI.clean_of_completed hr hst).completed (by simp [World.runStatusOf, hr, hst]) i row hrow hir

/-! ## 3. Over budget and completed -/

/-- A schedule that keeps over-budget runs from being completed. -/
def Guarded (cfg : Config) (w : World σ η) (l : Label σ η) : Prop :=
  Calm w l ∧ ChecksInTime cfg w l ∧ ReopensWithin cfg w l

instance [Fintype σ] (w : World σ η) (l : Label σ η) : Decidable (Guarded cfg w l) :=
  inferInstanceAs (Decidable (Calm w l ∧ ChecksInTime cfg w l ∧ ReopensWithin cfg w l))

structure SpendInv (cfg : Config) (tr : List (World σ η × Label σ η)) (w : World σ η) :
    Prop where
  base : SpendBase cfg tr w
  /-- Somebody is about to abort a running run that is over its limit. -/
  covered : ∀ r run, w.store.db.runs.get r = some run → run.status = .running →
    cfg.spendLimit.amount < run.totalCostUsd → BeforeSpendCheck w r
  completed : ∀ r run, w.store.db.runs.get r = some run → run.status = .completed →
    run.totalCostUsd ≤ cfg.spendLimit.amount

theorem spendInv_step {tr : List (World σ η × Label σ η)} {l : Label σ η}
    (hlimit : 0 ≤ cfg.spendLimit.amount) (hI : SpendInv cfg tr w) (hok : Guarded cfg w l)
    (hs : step cfg w l = some w') : SpendInv cfg (tr ++ [(w, l)]) w' where
  base := spendBase_step hI.base hok.1 hok.2.2 hs
  covered := by
    intro r run' hr' hst' hover'
    cases hr : w.store.db.runs.get r with
    | none =>
      obtain ⟨_, _, _, _, -, -, hzero, -⟩ := step_run_new hs hr' hr
      rw [hzero] at hover'
      exact absurd hover' (not_lt.mpr hlimit)
    | some run =>
      have hch := runChange hs hr hr'
      cases hch with
      | keep =>
        exact (hI.covered r _ hr hst' hover').step hok.1.1 hs hr hr' hst' hover' hst'
      | @rollup s c i v res row he hv hrow hrun =>
        have hwork := (step_of_hit hs he (by simp [World.statusOf, hrow, hrun])).2.2
        exact ⟨s, by simp [hwork, Phase.spendCheck, hv]⟩
      | reopen hx _ =>
        have := (hok.2.2 r (by simp [reopening, hx])).1
        exact absurd ((overspent_iff hr).mpr hover') (by simp [this])
      | _ => exact absurd hst' (by simp)
  completed := by
    intro r run' hr' hst'
    cases hr : w.store.db.runs.get r with
    | none =>
      obtain ⟨_, _, _, _, -, -, hzero, -⟩ := step_run_new hs hr' hr
      rw [hzero]
      exact hlimit
    | some run =>
      have hch := runChange hs hr hr'
      cases hch with
      | keep => exact hI.completed r _ hr hst'
      | @rollup s c i v res row he hv hrow hrun =>
        obtain ⟨row₁, hrow₁, hvr, -⟩ := hI.base.orderly.once.sane.loaded s i v _ he
        obtain rfl := Option.some.inj (hrow.symm.trans hrow₁)
        rcases hI.base.not_running_of_completed hr hst' hrow (hvr.symm.trans hv) with h | h <;>
          exact absurd (hrun.symm.trans h) (by simp)
      | checkCompleted he hv hrem hst _ =>
        by_contra hover
        have hover : cfg.spendLimit.amount < run.totalCostUsd := not_le.mp hover
        refine hok.2.1 r (by simp [checking, World.mover, he, hv, hrem])
          ⟨(overspent_iff hr).mpr hover, ?_⟩
        exact hI.covered r run hr hst hover
      | _ => exact absurd hst' (by simp)

/-- **Over budget is not completed.**  When messages are delivered once and nobody dies, no
completion check of an over-budget run comes between a rollup and its spend check, and no replay
reopens a run that is over its limit, was aborted, or whose item is no dead letter any more, then
no run is ever `completed` with a total over its limit. -/
theorem over_budget_not_completed {tr : List (World σ η × Label σ η)}
    (hlimit : 0 ≤ cfg.spendLimit.amount) (h : Run (step cfg) World.init tr w)
    (hok : Along (Guarded cfg) tr) {r : RunId} {run : EvalRun}
    (hr : w.store.db.runs.get r = some run) :
    ¬ (run.status = .completed ∧ cfg.spendLimit.amount < run.totalCostUsd) := by
  have hI := h.induct (J := SpendInv cfg)
    ⟨spendBase_init, fun _ _ h => absurd h (by simp [World.init, Db.empty]),
      fun _ _ h => absurd h (by simp [World.init, Db.empty])⟩
    (fun _ _ _ _ hI hok hs => spendInv_step hlimit hI hok hs) hok.follows
  rintro ⟨hst, hover⟩
  exact absurd (hI.completed r run hr hst) (not_le.mpr hover)

/-- The second of two items goes over the limit while the first one's execution is done: its own
spend check comes in time. -/
theorem over_budget_not_completed_small : ∃ (tr : List (World (Fin 2) (Fin 1) × Label (Fin 2) (Fin 1)))
    (w : World (Fin 2) (Fin 1)) (run : EvalRun),
    Run (step (smallConfig 2 1 2000000)) World.init tr w ∧ w.store.db.runs.get 0 = some run ∧
      run.totalCostUsd = 2500000 ∧ ¬ (run.status = .completed ∧ 2000000 < run.totalCostUsd) := by
  obtain ⟨tr, w, hrun, hok, htest⟩ := exists_run_of_play
    (step (smallConfig 2 1 2000000)) (World.init : World (Fin 2) (Fin 1))
    (fun w l => decide (Guarded (smallConfig 2 1 2000000) w l))
    (launch 0 2 ++ [.deliver 0 0, .deliver 1 1] ++ execs 0 answers 11 ++ execs 1 answers 7)
    (fun _ w => (w.store.db.runs.get 0).any fun run => run.totalCostUsd == 2500000)
    (by decide)
  obtain ⟨run, hr, htotal⟩ := (Option.any_eq_true ..).mp htest
  have hok : Along (Guarded (smallConfig 2 1 2000000)) tr :=
    hok.mono fun _ _ h => of_decide_eq_true h
  exact ⟨tr, w, run, hrun, hr, by simpa using htotal,
    over_budget_not_completed (by decide) hrun hok hr⟩

/-- The first item's completion check comes between the second one's rollup and spend check. -/
theorem over_budget_completed : ¬ ∀ (tr : List (World Nat Nat × Label Nat Nat)) (w : World Nat Nat),
    Run (step (smallConfig 2 1 2000000)) World.init tr w → Along Calm tr →
      ∀ r run, w.store.db.runs.get r = some run →
        ¬ (run.status = .completed ∧ 2000000 < run.totalCostUsd) := by
  intro hall
  obtain ⟨tr, w, hrun, hok, htest⟩ := exists_run_of_play
    (step (smallConfig 2 1 2000000)) (World.init : World Nat Nat)
    (fun w l => decide (Calm w l))
    (launch 0 2 ++ [.deliver 0 0, .deliver 1 1] ++ execs 0 answers 10 ++ execs 1 answers 6 ++
      execs 0 answers 1)
    (fun _ w => (w.store.db.runs.get 0).any fun run : EvalRun =>
      run.status == .completed && decide ((2000000 : Int) < run.totalCostUsd))
    (by decide)
  obtain ⟨run, hr, hbad⟩ := (Option.any_eq_true ..).mp htest
  have hok : Along Calm tr := hok.mono fun _ _ h => of_decide_eq_true h
  exact hall tr w hrun hok 0 run hr (by simpa using hbad)

/-! ## 4. How far a run can overshoot -/

/-- No replay is requested, no message is delivered twice and nobody dies. -/
def NoReplay (l : Label σ η) : Prop := l.isReliable = true ∧ l.replays = none

/-- What the execution would charge for a result. -/
def Loaded.charge (v : Loaded) (res : CompletionResult) : MicroUsd :=
  computeCost v.endpoint.modelId res.promptTokens res.completionTokens

/-- The completion the provider gives in this step, and the execution it is for. -/
def answered (p : World σ η × Label σ η) : Option (Loaded × CompletionResult) :=
  match p.2 with
  | .exec s ch =>
    match p.1.workers s, ch.completion with
    | some ⟨_, .at v (.complete _)⟩, .result res => some (v, res)
    | _, _ => none
  | _ => none

/-- A completion the provider gives costs between nothing and `c`. -/
def Priced (c : MicroUsd) (w : World σ η) (l : Label σ η) : Prop :=
  ∀ x ∈ answered (w, l), 0 ≤ x.1.charge x.2 ∧ x.1.charge x.2 ≤ c

instance (l : Label σ η) : Decidable (NoReplay l) :=
  inferInstanceAs (Decidable (l.isReliable = true ∧ l.replays = none))

instance (c : MicroUsd) (w : World σ η) (l : Label σ η) : Decidable (Priced c w l) :=
  inferInstanceAs (Decidable
    (∀ x ∈ answered (w, l), 0 ≤ x.1.charge x.2 ∧ x.1.charge x.2 ≤ c))

/-- The result an execution carries towards its finalising update. -/
def Pc.carries : Pc → Option CompletionResult
  | .checkCancelled r | .writeArtifact r | .finalise r => some r
  | _ => none

/-- Every result under way is priced. -/
def AllPriced (c : MicroUsd) (w : World σ η) : Prop :=
  ∀ s i v pc res, w.workers s = some ⟨i, .at v pc⟩ → pc.carries = some res →
    0 ≤ v.charge res ∧ v.charge res ≤ c

theorem allPriced_step {c : MicroUsd} {l : Label σ η} (hI : AllPriced c w) (hok : Priced c w l)
    (hs : step cfg w l = some w') : AllPriced c w' := by
  intro s i v pc res he' hc
  have hfirst : pc.isFirst = false := by
    cases pc <;> first | rfl | exact absurd hc (by simp [Pc.carries])
  rcases step_pc hs he' hfirst with ⟨hw, -⟩ | ⟨c', pc₀, rfl, hw, hstep⟩
  · exact hI s i v pc res hw hc
  · cases hstep with
    | answered hres =>
      obtain rfl := Option.some.inj hc
      exact hok (v, _) (by simp [EvalHarness.answered, hw, hres])
    | passed | written => exact hI s i v _ res hw hc
    | _ => exact absurd hc (by simp [Pc.carries])

/-- The execution in the slot may still finalise an item of the run. -/
def Finalising (w : World σ η) (r : RunId) (s : σ) : Prop :=
  ∃ i v pc, w.workers s = some ⟨i, .at v pc⟩ ∧ v.evalRunId = r ∧ pc.toFinalise = true

/-- The slot will not roll up onto the run once it is over its limit: it is about to abort it, or
the run is no longer `running` and the slot's execution is not on the way to a rollup. -/
def Exhausted (w : World σ η) (r : RunId) (s : σ) : Prop :=
  if w.runStatusOf r = some .running then
    (w.workers s).bind (fun e => e.phase.spendCheck) = some r
  else ¬ Finalising w r s

theorem Exhausted.not_finalising {σ η : Type} {w : World σ η}
    {r : RunId} {s : σ} (h : Exhausted w r s) :
    ¬ Finalising w r s := by
  unfold Exhausted at h
  split at h
  · rintro ⟨i, v, pc, he, -, hp⟩
    rw [he] at h
    cases pc with
    | abortCheck => exact absurd hp (by simp [Pc.toFinalise])
    | _ => exact absurd h (by simp [Phase.spendCheck])
  · exact h

/-- An execution about to check the spending of the run is past its rollup. -/
theorem exhausted_of_spendCheck {σ η : Type} {w : World σ η}
    {r : RunId} {s : σ} {i : ItemId} {v : Loaded}
    {res : CompletionResult} (he : w.workers s = some ⟨i, .at v (.abortCheck res)⟩)
    (hv : v.evalRunId = r) : Exhausted w r s := by
  unfold Exhausted
  split
  · simp [he, Phase.spendCheck, hv]
  · rintro ⟨j, v', pc, he', -, hp⟩
    obtain ⟨-, hp'⟩ := Exec.mk.inj (Option.some.inj (he.symm.trans he'))
    obtain ⟨-, rfl⟩ := Phase.at.inj hp'
    exact absurd hp (by simp [Pc.toFinalise])

/-- Without replays, a run that is no longer `running` never is again. -/
theorem step_settled {l : Label σ η} (hno : replayed (w, l) = none)
    (hs : step cfg w l = some w') {r : RunId} {run : EvalRun}
    (hr : w.store.db.runs.get r = some run) (hst : run.status ≠ .running) :
    w'.runStatusOf r ≠ some .running := by
  obtain ⟨run', hr', hch⟩ := step_run hs hr
  simp only [World.runStatusOf, hr', Option.map_some, ne_eq, Option.some.injEq]
  cases hch with
  | keep | rollup => exact hst
  | reopen hx _ => exact absurd hno (by simp [replayed, hx])
  | _ => simp

/-- A slot that is exhausted for an over-budget run stays so. -/
theorem Exhausted.step {tr : List (World σ η × Label σ η)} {l : Label σ η}
    (hI : SpendBase cfg tr w) (hrel : l.isReliable = true) (hno : replayed (w, l) = none)
    (hs : step cfg w l = some w') {r : RunId} {run : EvalRun}
    (hr : w.store.db.runs.get r = some run) (hover : cfg.spendLimit.amount < run.totalCostUsd)
    {s : σ} (h : Exhausted w r s) : Exhausted w' r s := by
  have hnf := h.not_finalising
  -- a slot that starts on its way to a rollup has read a run that takes no more of them
  have notFinalising : run.status ≠ .running → ¬ Finalising w' r s := by
    rintro hst ⟨i, v, pc, he', hv, hp⟩
    cases step_at hs he' with
    | stayed hw _ => exact hnf ⟨i, v, pc, hw, hv, hp⟩
    | @started _ row run₁ _ hrow _ _ hload hr₁ hcase =>
      obtain rfl : row.evalRunId = r := hload.1.symm.trans hv
      obtain rfl := Option.some.inj (hr.symm.trans hr₁)
      rcases hcase with ⟨rfl, -⟩ | ⟨rfl, -⟩ | ⟨-, hc, hf, hrow_st⟩
      · exact absurd hp (by simp [Pc.toFinalise])
      · exact absurd hp (by simp [Pc.toFinalise])
      · have hnp := hI.orderly.once.sane.not_pending _ _ hr
        have hdone : run.status = .completed := by
          cases hrs : run.status <;> simp_all
        rcases hI.not_running_of_completed hr hdone hrow rfl with h | h <;>
          rcases hrow_st with h' | h' <;> exact absurd (h.symm.trans h') (by simp)
    | @stepped _ pc₀ hw hstep => exact hnf ⟨i, v, pc₀, hw, hv, (hstep.toFinalise hp).1⟩
  by_cases hst : run.status = .running
  · have hat : (w.workers s).bind (fun e => e.phase.spendCheck) = some r := by
      simpa [Exhausted, World.runStatusOf, hr, hst] using h
    obtain ⟨⟨i, p⟩, he, hp⟩ := Option.bind_eq_some_iff.mp hat
    cases p with
    | start => exact absurd hp (by simp [Phase.spendCheck])
    | «at» v pc =>
      cases pc with
      | abortCheck res =>
        obtain rfl : v.evalRunId = r := by simpa [Phase.spendCheck] using hp
        by_cases hl : l.Spares s
        · exact exhausted_of_spendCheck (step_worker_stays hs he hl) rfl
        · obtain ⟨c, rfl⟩ := Label.exec_of_reliable hrel hl
          -- the slot aborts the run and is idle
          have hob : overBudget cfg.spendLimit run = true := by simp [overBudget, hst, hover]
          obtain ⟨-, hruns, hidle⟩ := step_of_abort hs he hr hob
          have hfailed : w'.runStatusOf v.evalRunId = some .failed := by
            simp [World.runStatusOf, hruns, hr, hob]
          simp [Exhausted, hfailed, Finalising, hidle]
      | _ => exact absurd hp (by simp [Phase.spendCheck])
  · simp only [Exhausted, step_settled hno hs hr hst, if_false]
    exact notFinalising hst

/-- What the overshoot bound is carried by: the slots that have spent their last completion on the
run. -/
structure OvershootInv (cfg : Config) (c : MicroUsd) (tr : List (World σ η × Label σ η))
    (w : World σ η) : Prop where
  base : SpendBase cfg tr w
  priced : AllPriced c w
  /-- No replay is being answered. -/
  noReplay : ∀ h x, w.handlers h = some x → x.replayItem = none
  bound : ∀ r run, w.store.db.runs.get r = some run → ∃ S : Finset σ,
    (∀ s ∈ S, Exhausted w r s) ∧ run.totalCostUsd ≤ cfg.spendLimit.amount + S.card * c

/-- Without replay requests, no replay's transaction ever commits. -/
theorem replayed_eq_none {σ η : Type} {w : World σ η}
    (hno : ∀ h x, w.handlers h = some x → x.replayItem = none)
    (l : Label σ η) : replayed (w, l) = none := by
  unfold replayed
  split
  · split
    · rename_i hx
      exact absurd (hno _ _ hx) (by simp [Handler.replayItem])
    · rfl
  · rfl

theorem noReplay_step {l : Label σ η} (hno : ∀ h x, w.handlers h = some x → x.replayItem = none)
    (hok : NoReplay l) (hs : step cfg w l = some w') :
    ∀ h x, w'.handlers h = some x → x.replayItem = none := by
  intro h x hx
  cases hi : x.replayItem with
  | none => rfl
  | some i =>
    rcases replayItem_origin hs hx hi with ⟨y, hy, hyi⟩ | rfl
    · exact absurd (hno h y hy) (by simp [hyi])
    · exact absurd hok.2 (by simp [Label.replays])

/-- One more rollup fits under the bound, for the slot that makes it was not exhausted. -/
theorem bound_step {c : MicroUsd} {tr : List (World σ η × Label σ η)} {l : Label σ η}
    (hlimit : 0 ≤ cfg.spendLimit.amount) (hI : OvershootInv cfg c tr w) (hok : NoReplay l)
    (hs : step cfg w l = some w') {r : RunId} {run' : EvalRun}
    (hr' : w'.store.db.runs.get r = some run') : ∃ S : Finset σ,
      (∀ s ∈ S, Exhausted w' r s) ∧ run'.totalCostUsd ≤ cfg.spendLimit.amount + S.card * c := by
  by_cases hunder : run'.totalCostUsd ≤ cfg.spendLimit.amount
  · exact ⟨∅, by simp, by simpa using hunder⟩
  have hover' : cfg.spendLimit.amount < run'.totalCostUsd := not_le.mp hunder
  cases hr : w.store.db.runs.get r with
  | none =>
    obtain ⟨_, _, _, _, -, -, hzero, -⟩ := step_run_new hs hr' hr
    rw [hzero] at hover'
    exact absurd hover' (not_lt.mpr hlimit)
  | some run =>
    have hno := replayed_eq_none hI.noReplay l
    obtain ⟨S, hS, hle⟩ := hI.bound r run hr
    have hch := runChange hs hr hr'
    rcases hch.spending with ⟨hsame, -⟩ | ⟨s, ch, i, v, res, row, rfl, he, hv, hrow, hrun, hroll⟩
    · rw [hsame] at hover' ⊢
      exact ⟨S, fun s hs₀ => (hS s hs₀).step hI.base hok.1 hno hs hr hover', hle⟩
    · obtain ⟨-, hcharge⟩ := hI.priced s i v _ res he rfl
      have hprev := ((hI.base.orderly.once.fits i _ _ row (.worker he rfl) hrow).prev v _ rfl).1
      have htotal : run'.totalCostUsd = run.totalCostUsd + v.charge res := by
        rw [hroll]
        simp [EvalHarness.rollup, Loaded.charge, hprev]
      have hat := (step_of_hit hs he (by simp [World.statusOf, hrow, hrun])).2.2
      have hnew : Exhausted w' r s := exhausted_of_spendCheck hat hv
      by_cases hover : cfg.spendLimit.amount < run.totalCostUsd
      · -- the winner was on its way to the rollup, so it is not among the exhausted slots
        have hfresh : s ∉ S := fun hmem =>
          (hS s hmem).not_finalising ⟨i, v, _, he, hv, rfl⟩
        refine ⟨insert s S, ?_, ?_⟩
        · intro s' hs'
          rcases Finset.mem_insert.mp hs' with rfl | hs'
          · exact hnew
          · exact (hS s' hs').step hI.base hok.1 hno hs hr hover
        · rw [Finset.card_insert_of_notMem hfresh, htotal]
          push_cast
          linarith
      · refine ⟨{s}, by simpa using hnew, ?_⟩
        rw [htotal]
        simp only [Finset.card_singleton, Nat.cast_one, one_mul]
        linarith

theorem overshootInv_step {c : MicroUsd} {tr : List (World σ η × Label σ η)} {l : Label σ η}
    (hlimit : 0 ≤ cfg.spendLimit.amount) (hI : OvershootInv cfg c tr w)
    (hok : NoReplay l ∧ Priced c w l) (hs : step cfg w l = some w') :
    OvershootInv cfg c (tr ++ [(w, l)]) w' := by
  have hno := replayed_eq_none hI.noReplay l
  have hcalm : Calm w l := ⟨hok.1.1, by simp [hno]⟩
  have hre : ReopensWithin cfg w l := by
    intro r hr
    unfold reopening at hr
    split at hr
    · split at hr
      · rename_i hx
        exact absurd (hI.noReplay _ _ hx) (by simp [Handler.replayItem])
      · exact absurd hr (by simp)
    · exact absurd hr (by simp)
  exact ⟨spendBase_step hI.base hcalm hre hs, allPriced_step hI.priced hok.2 hs,
    noReplay_step hI.noReplay hok.1 hs, fun _ _ => bound_step hlimit hI hok.1 hs⟩

/-- **Overshoot.**  With `K` worker slots, a completion that costs at most `c`, reliable delivery
and no replays, no run's total ever exceeds its limit by more than `K` completions. -/
theorem spend_overshoot [Fintype σ] {c : MicroUsd} {tr : List (World σ η × Label σ η)}
    (hlimit : 0 ≤ cfg.spendLimit.amount) (hc : 0 ≤ c) (h : Run (step cfg) World.init tr w)
    (hrel : Along (fun _ l => NoReplay l) tr) (hpriced : Along (Priced c) tr) {r : RunId}
    {run : EvalRun} (hr : w.store.db.runs.get r = some run) :
    run.totalCostUsd ≤ cfg.spendLimit.amount + Fintype.card σ * c := by
  have hI := h.induct (J := OvershootInv cfg c)
    ⟨spendBase_init, fun _ _ _ _ _ h => absurd h (by simp [World.init]),
      fun _ _ h => absurd h (by simp [World.init]),
      fun _ _ h => absurd h (by simp [World.init, Db.empty])⟩
    (fun _ _ _ _ hI hok hs => overshootInv_step hlimit hI hok hs) (hrel.and hpriced).follows
  obtain ⟨S, -, hle⟩ := hI.bound r run hr
  have hcard : (S.card : Int) * c ≤ Fintype.card σ * c :=
    mul_le_mul_of_nonneg_right (by exact_mod_cast S.card_le_univ) hc
  linarith

/-- Two slots, two completions of 1.25 USD under a limit of 1.00 USD: both are rolled up before
either slot checks. -/
theorem spend_overshoot_small : ∃ (tr : List (World (Fin 2) (Fin 1) × Label (Fin 2) (Fin 1)))
    (w : World (Fin 2) (Fin 1)) (run : EvalRun),
    Run (step (smallConfig 2 1 1000000)) World.init tr w ∧ w.store.db.runs.get 0 = some run ∧
      run.totalCostUsd = 2500000 ∧
      run.totalCostUsd ≤ (smallConfig 2 1 1000000).spendLimit.amount + Fintype.card (Fin 2) * 1250000 := by
  obtain ⟨tr, w, hrun, hok, htest⟩ := exists_run_of_play
    (step (smallConfig 2 1 1000000)) (World.init : World (Fin 2) (Fin 1))
    (fun w l => decide (NoReplay l ∧ Priced 1250000 w l))
    (launch 0 2 ++ [.deliver 0 0, .deliver 1 1] ++ execs 0 answers 6 ++ execs 1 answers 6 ++
      execs 0 answers 1)
    (fun _ w => (w.store.db.runs.get 0).any fun run => run.totalCostUsd == 2500000)
    (by decide)
  obtain ⟨run, hr, htotal⟩ := (Option.any_eq_true ..).mp htest
  have hrel : Along (fun _ l => NoReplay l) tr := hok.mono fun _ _ h => (of_decide_eq_true h).1
  have hpriced : Along (Priced 1250000) tr := hok.mono fun _ _ h => (of_decide_eq_true h).2
  exact ⟨tr, w, run, hrun, hr, by simpa using htotal,
    spend_overshoot (by decide) (by decide) hrun hrel hpriced hr⟩

end EvalHarness
