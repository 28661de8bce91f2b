/-
# Confluence of a run

The executions of a run share the `eval_run` row, the spend check and the completion check, and
commit in any order.  A `Plan` says what the providers and the graders answer; `Plan.outcome` is
what it makes of ONE item, read off an execution that nothing disturbs.  `confluence` says that
the order does not matter: wherever two schedules of the run end, every item has its outcome,
and the totals and the status of the run are the same.  The order does matter once the database
refuses something (`refused_diverges`): the total has room for one of two large completions, and
the one that comes second stays in `running`.

The invariant is `Course`: the outcome of an item, computed from what the database says about it
now and from where its holder stands, never changes.  It survives a step because an execution's
step is a step of the computation (`rest_of_next`) and because nobody else writes the item: the
budget is large enough for the spend check to stay silent (`Course.within`).
-/
import EvalHarness.Progress
import Mathlib.Algebra.Order.Group.Int

namespace EvalHarness

open Lts

variable {σ η : Type} [DecidableEq σ] [DecidableEq η] {cfg : Config} {w w' : World σ η}

/-! ## 1. What the database says about an item -/

structure ItemRecord where
  row : RunItem
  grades : List Grade
  reviews : List ReviewItem

def Db.recordOf (db : Db) (i : ItemId) : Option ItemRecord :=
  (db.items.get i).map fun row =>
    ⟨row, db.grades.filter fun g => g.runItemId == i, db.reviews.filter fun x => x.runItemId == i⟩

/-- The record after a step of the execution that holds the item. -/
def ItemRecord.after (x : ItemRecord) (i : ItemId) (v : Loaded) : Pc → ItemRecord
  | .gradeCommit gs review =>
    if storableGrades gs then
      { x with
        grades := x.grades ++ gs.map fun g => { toNewGrade := g, runItemId := i }
        reviews := x.reviews ++ review.toList.map fun reason => { runItemId := i, reason } }
    else x
  | pc => { x with row := pc.rowAfter i v x.row }

theorem Db.recordOf_eq_some {db : Db} {i : ItemId} {x : ItemRecord} :
    db.recordOf i = some x ↔ db.items.get i = some x.row ∧
      x.grades = (db.grades.filter fun g => g.runItemId == i) ∧
      x.reviews = db.reviews.filter fun y => y.runItemId == i := by
  rw [Db.recordOf, Option.map_eq_some_iff]
  constructor
  · rintro ⟨row, hrow, rfl⟩
    exact ⟨hrow, rfl, rfl⟩
  · rintro ⟨hrow, hg, hr⟩
    exact ⟨x.row, hrow, by rw [← hg, ← hr]⟩

theorem Db.exists_recordOf {db : Db} {i : ItemId} {row : RunItem} (h : db.items.get i = some row) :
    ∃ x, db.recordOf i = some x ∧ x.row = row :=
  ⟨_, by rw [Db.recordOf, h, Option.map_some], rfl⟩

/-- The record of an item whose row stays and whose graders do not commit stays. -/
theorem step_recordOf {l : Label σ η} (hs : step cfg w l = some w') {i : ItemId} {x : ItemRecord}
    (hx : w.store.db.recordOf i = some x) (hrow : w'.store.db.items.get i = some x.row)
    (hno : ∀ s c v gs review, l = .exec s c →
      w.workers s ≠ some ⟨i, .at v (.gradeCommit gs review)⟩) :
    w'.store.db.recordOf i = some x := by
  obtain ⟨-, hg, hr⟩ := Db.recordOf_eq_some.mp hx
  refine Db.recordOf_eq_some.mpr ⟨hrow, ?_, ?_⟩ <;>
    rcases step_grades hs with ⟨hg', hr'⟩ | ⟨s, c, j, v, gs, review, rfl, he, -, hdb⟩
  · rw [hg', hg]
  · have hij : j ≠ i := fun h => hno s c v gs review rfl (h ▸ he)
    simp [hdb, insertGrades, List.filter_append, hg, List.filter_map, Function.comp_def, hij]
  · rw [hr', hr]
  · have hij : j ≠ i := fun h => hno s c v gs review rfl (h ▸ he)
    simp [hdb, insertGrades, List.filter_append, hr, List.filter_map, Function.comp_def, hij]

/-- The record an execution leaves of its own item. -/
theorem stepRunItem_recordOf {c : Choice} {rid : ItemId} {v : Loaded} {m : Backend} {pc : Pc}
    {x : ItemRecord} (hx : m.db.recordOf rid = some x)
    (hq : ∀ r, pc = .abortCheck r → x.row.status ≠ .queued) :
    (stepRunItem cfg c rid v m pc).1.db.recordOf rid = some (x.after rid v pc) := by
  obtain ⟨hrow, hg, hr⟩ := Db.recordOf_eq_some.mp hx
  have hrow' : (stepRunItem cfg c rid v m pc).1.db.items.get rid = some (pc.rowAfter rid v x.row) :=
    stepRunItem_row hrow hq
  refine Db.recordOf_eq_some.mpr ?_
  by_cases hpc : ∃ gs review, pc = .gradeCommit gs review
  · obtain ⟨gs, review, rfl⟩ := hpc
    by_cases hgs : storableGrades gs = true
    · simp only [stepRunItem, ItemRecord.after, if_pos hgs] at hrow' ⊢
      refine ⟨hrow', ?_, ?_⟩
      · simp [insertGrades, hg, List.filter_map, Function.comp_def]
      · simp [insertGrades, hr, List.filter_map, Function.comp_def]
    · simp only [stepRunItem, ItemRecord.after, if_neg hgs] at hrow' ⊢
      exact ⟨hrow', hg, hr⟩
  · obtain ⟨hg', hr'⟩ : (stepRunItem cfg c rid v m pc).1.db.grades = m.db.grades ∧
        (stepRunItem cfg c rid v m pc).1.db.reviews = m.db.reviews :=
      stepRunItem_grades fun gs review _ h => hpc ⟨gs, review, h⟩
    have hafter : x.after rid v pc = { x with row := pc.rowAfter rid v x.row } := by
      cases pc with
      | gradeCommit gs review => exact absurd ⟨gs, review, rfl⟩ hpc
      | _ => rfl
    rw [hafter, hg', hr']
    exact ⟨hrow', hg, hr⟩

/-! ## 2. What the plan makes of an item -/

/-- What the provider does in each attempt of each item, and what the graders make of it. -/
structure Plan where
  completion : ItemId → Nat → Completion
  grading : ItemId → GradingOutcome

/-- The commit of the graders' rows, or what follows when they are refused. -/
def ItemRecord.commit (x : ItemRecord) (i : ItemId) (v : Loaded) (gs : List NewGrade)
    (review : Option ReviewReason) : ItemRecord :=
  if storableGrades gs then x.after i v (.gradeCommit gs review)
  else x.after i v (.markGradingFailed notStorable)

/-- The graders' verdict, from the graders on. -/
def Plan.judged (plan : Plan) (i : ItemId) (v : Loaded) (x : ItemRecord) : ItemRecord :=
  match plan.grading i with
  | .raises e => x.after i v (.markGradingFailed e)
  | .graded gs review => x.commit i v gs (if x.reviews = [] then review else none)

/-- `grade_run_item`: an item that has grades is not graded again. -/
def Plan.graded (plan : Plan) (i : ItemId) (v : Loaded) (x : ItemRecord) : ItemRecord :=
  if x.grades = [] then plan.judged i v x else x

/-- From the provider call of attempt `k` on, with `left` attempts behind it. -/
def Plan.attempts (plan : Plan) (cfg : Config) (i : ItemId) (v : Loaded) (left k : Nat)
    (x : ItemRecord) : ItemRecord :=
  match plan.completion i k with
  | .result r => plan.graded i v (x.after i v (.finalise r))
  | .nonRetryable e => x.after i v (.markNonRetryable e)
  | .retryable e =>
    match left with
    | 0 =>
      let n := cfg.retry.maxAttempts
      x.after i v (.markDeadLettered s!"exhausted {n} attempts: {e}")
    | left + 1 => plan.attempts cfg i v left (k + 1) (x.after i v (.markRunning (k + 1)))

/-- What becomes of an item whose execution stands at a step, if nothing disturbs it. -/
def Plan.rest (plan : Plan) (cfg : Config) (i : ItemId) (v : Loaded) (x : ItemRecord) :
    Pc → ItemRecord
  | .markRunning k =>
    plan.attempts cfg i v (cfg.retry.maxAttempts - k) k (x.after i v (.markRunning k))
  | .complete k => plan.attempts cfg i v (cfg.retry.maxAttempts - k) k x
  | .checkCancelled r | .writeArtifact r | .finalise r =>
    plan.graded i v (x.after i v (.finalise r))
  | .abortCheck _ | .gradeRead _ => plan.graded i v x
  | .judge _ => plan.judged i v x
  | .reviewCheck gs reason => x.commit i v gs (if x.reviews = [] then some reason else none)
  | .gradeCommit gs review => x.commit i v gs review
  | pc => x.after i v pc

/-- The answer among `left` attempts from number `k` on, unless they fail. -/
def Plan.answer (plan : Plan) (i : ItemId) : Nat → Nat → Option CompletionResult
  | 0, _ => none
  | left + 1, k =>
    match plan.completion i k with
    | .result r => some r
    | .nonRetryable _ => none
    | .retryable _ => plan.answer i left (k + 1)

/-- What an execution keeps from its initial read of a row. -/
def Config.loaded (cfg : Config) (row : RunItem) : Option Loaded := do
  let task ← cfg.catalog.tasks.get row.taskId
  let endpoint ← cfg.catalog.endpoints.get row.modelEndpointId
  return ⟨row.evalRunId, task, endpoint, row.cost, row.tokens⟩

/-- What becomes of an item from a place on; from `start`, its outcome. -/
def Plan.outcome (plan : Plan) (cfg : Config) (i : ItemId) (x : ItemRecord) : Phase → ItemRecord
  | .start =>
    match cfg.loaded x.row with
    | some v => plan.rest cfg i v x (nextAttempt cfg.retry 1 "None")
    | none => x
  | .at v pc => plan.rest cfg i v x pc

/-- What an item costs: nothing, unless its completion succeeds. -/
def Plan.cost (plan : Plan) (cfg : Config) (i : ItemId) (row : RunItem) : MicroUsd :=
  match plan.answer i cfg.retry.maxAttempts 1, cfg.catalog.endpoints.get row.modelEndpointId with
  | some r, some endpoint => computeCost endpoint.modelId r.promptTokens r.completionTokens
  | _, _ => 0

/-- Item 0 is answered in its second attempt; the output of item 1 cannot be graded. -/
def smallPlan : Plan where
  completion i k := if i = 0 ∧ k = 1 then declines.completion else answers.completion
  grading i := if i = 1 then .raises "unparsable" else .graded [] none

/-- The provider and the graders answer as planned. -/
def Plan.answers (plan : Plan) (i : ItemId) (c : Choice) : Pc → Bool
  | .complete k => decide (c.completion = plan.completion i k)
  | .judge _ => decide (c.grading = plan.grading i)
  | _ => true

/-- **The simulation.**  A step of an execution is a step of the computation: what becomes of the
item stays the same. -/
theorem rest_of_next {plan : Plan} {c : Choice} {i : ItemId} {v : Loaded} {m : Backend}
    {pc pc' : Pc} {x : ItemRecord} (hx : m.db.recordOf i = some x)
    (hplan : plan.answers i c pc = true) (h : PcStep cfg c i v m pc pc')
    (hskip : pc'.skips = false) :
    plan.rest cfg i v (x.after i v pc) pc' = plan.rest cfg i v x pc := by
  obtain ⟨-, hgrades, hreviews⟩ := Db.recordOf_eq_some.mp hx
  have hany : ∀ {ρ : Type} {xs : List ρ} {p : ρ → Bool}, xs.any p = false ↔ xs.filter p = [] := by
    intro ρ xs p
    rw [List.filter_eq_nil_iff, List.any_eq_false]
  cases h with
  | marked | passed | written | won | within => rfl
  | failed | deadLettered | noticed | gradingFailed => rfl
  | committed hgs =>
    simp only [Plan.rest, ItemRecord.commit, if_pos hgs]
    rfl
  | unstored hgs =>
    simp [Plan.rest, ItemRecord.commit, hgs, ItemRecord.after]
  | cancelled => exact absurd hskip (by simp [Pc.skips])
  | @answered a r hc =>
    simp only [Plan.answers, decide_eq_true_eq] at hplan
    simp only [Plan.rest]
    rw [Plan.attempts, ← hplan, hc]
    rfl
  | @rejected a e hc =>
    simp only [Plan.answers, decide_eq_true_eq] at hplan
    simp only [Plan.rest]
    rw [Plan.attempts, ← hplan, hc]
    rfl
  | @retry a e hc ha =>
    simp only [Plan.answers, decide_eq_true_eq] at hplan
    have hleft : cfg.retry.maxAttempts - a = cfg.retry.maxAttempts - (a + 1) + 1 := by omega
    simp only [Plan.rest]
    rw [hleft, Plan.attempts.eq_def plan cfg i v _ a, ← hplan, hc]
    rfl
  | @exhausted a e e' hc ha he =>
    simp only [Plan.answers, decide_eq_true_eq] at hplan
    have hleft : cfg.retry.maxAttempts - a = 0 := by omega
    rw [nextAttempt, if_neg (by omega), Pc.markDeadLettered.injEq] at he
    simp only [Plan.rest]
    rw [hleft, Plan.attempts, ← hplan, hc, ← he]
    rfl
  | regraded hg =>
    have hne : x.grades ≠ [] := by
      rw [hgrades, Ne, ← hany, hg]
      simp
    simp only [Plan.rest, Plan.graded, if_neg hne]
    rfl
  | ungraded hg =>
    have hnil : x.grades = [] := by rw [hgrades, ← hany, hg]
    simp only [Plan.rest, Plan.graded, if_pos hnil]
    rfl
  | raised hc =>
    simp only [Plan.answers, decide_eq_true_eq] at hplan
    simp only [Plan.rest, Plan.judged, ← hplan, hc]
    rfl
  | agreed hc =>
    simp only [Plan.answers, decide_eq_true_eq] at hplan
    simp only [Plan.rest, Plan.judged, ← hplan, hc, ite_self]
    rfl
  | disagreed hc =>
    simp only [Plan.answers, decide_eq_true_eq] at hplan
    simp only [Plan.rest, Plan.judged, ← hplan, hc]
    rfl
  | reviewed hr =>
    have hne : x.reviews ≠ [] := by
      rw [hreviews, Ne, ← hany, hr]
      simp
    simp only [Plan.rest, if_neg hne]
    rfl
  | unreviewed hr =>
    have hnil : x.reviews = [] := by rw [hreviews, ← hany, hr]
    simp only [Plan.rest, if_pos hnil]
    rfl

/-! ## 3. What an item costs -/

theorem commit_cost (x : ItemRecord) (i : ItemId) (v : Loaded) (gs : List NewGrade)
    (review : Option ReviewReason) : (x.commit i v gs review).row.cost = x.row.cost := by
  unfold ItemRecord.commit
  split
  · simp only [ItemRecord.after, if_pos ‹_›]
  · rfl

theorem judged_cost (plan : Plan) (i : ItemId) (v : Loaded) (x : ItemRecord) :
    (plan.judged i v x).row.cost = x.row.cost := by
  unfold Plan.judged
  split
  · rfl
  · exact commit_cost x i v _ _

theorem graded_cost (plan : Plan) (i : ItemId) (v : Loaded) (x : ItemRecord) :
    (plan.graded i v x).row.cost = x.row.cost := by
  unfold Plan.graded
  split
  · exact judged_cost plan i v x
  · rfl

/-- Behind the rollup the cost of an item stays. -/
theorem rest_cost {plan : Plan} {i : ItemId} {v : Loaded} {x : ItemRecord} {pc : Pc}
    (hpc : pc.allows .succeeded = true) : (plan.rest cfg i v x pc).row.cost = x.row.cost := by
  cases pc with
  | abortCheck | gradeRead => exact graded_cost plan i v x
  | judge => exact judged_cost plan i v x
  | reviewCheck | gradeCommit => exact commit_cost x i v _ _
  | markGradingFailed | publishDeadLetter | maybeComplete => rfl
  | _ => exact absurd hpc (by simp [Pc.allows])

/-- A running item that is finalised costs what its completion costs. -/
theorem finalised_cost (plan : Plan) (i : ItemId) (v : Loaded) (r : CompletionResult)
    {x : ItemRecord} (hst : x.row.status = .running) :
    (plan.graded i v (x.after i v (.finalise r))).row.cost =
      computeCost v.endpoint.modelId r.promptTokens r.completionTokens := by
  rw [graded_cost]
  simp [ItemRecord.after, Pc.rowAfter, hst, finalisedRow, RunItem.cost]

/-- The attempts charge the answer among them. -/
theorem attempts_cost (plan : Plan) (i : ItemId) (v : Loaded) : ∀ (left k : Nat) (x : ItemRecord),
    x.row.status = .running → x.row.cost = 0 →
      (plan.attempts cfg i v left k x).row.cost = (plan.answer i (left + 1) k).elim 0 fun r =>
        computeCost v.endpoint.modelId r.promptTokens r.completionTokens := by
  intro left
  induction left with
  | zero =>
    intro k x hst hcost
    rw [Plan.attempts, Plan.answer]
    cases plan.completion i k with
    | result r => exact finalised_cost plan i v r hst
    | retryable e => exact hcost
    | nonRetryable e => exact hcost
  | succ left ih =>
    intro k x hst hcost
    rw [Plan.attempts, Plan.answer]
    cases plan.completion i k with
    | result r => exact finalised_cost plan i v r hst
    | retryable e => exact ih (k + 1) _ rfl hcost
    | nonRetryable e => exact hcost

/-- What an unspent item costs in the end. -/
theorem outcome_cost {plan : Plan} {i : ItemId} {x : ItemRecord} (hcost : x.row.cost = 0)
    (htask : ∃ task, cfg.catalog.tasks.get x.row.taskId = some task) :
    (plan.outcome cfg i x .start).row.cost = plan.cost cfg i x.row := by
  obtain ⟨task, htask⟩ := htask
  cases hend : cfg.catalog.endpoints.get x.row.modelEndpointId with
  | none => simp [Plan.outcome, Config.loaded, htask, hend, Plan.cost, hcost]
  | some endpoint =>
    have hload : cfg.loaded x.row =
        some ⟨x.row.evalRunId, task, endpoint, x.row.cost, x.row.tokens⟩ := by
      simp [Config.loaded, htask, hend]
    simp only [Plan.outcome, hload, Plan.cost, hend, nextAttempt]
    split
    · rename_i hmax
      have hleft : cfg.retry.maxAttempts = cfg.retry.maxAttempts - 1 + 1 := by omega
      rw [Plan.rest, attempts_cost plan i _ _ _ (x.after i _ (.markRunning 1)) rfl hcost, ← hleft]
      cases plan.answer i cfg.retry.maxAttempts 1 <;> rfl
    · rename_i hmax
      have hzero : cfg.retry.maxAttempts = 0 := by omega
      rw [hzero, Plan.answer]
      exact hcost

/-! ## 4. The schedule -/

/-- The step follows the plan as far as run `r` is concerned, and neither cancels the run nor
replays an item of it. -/
def Plan.allows (plan : Plan) (r : RunId) (w : World σ η) : Label σ η → Bool
  | .exec s c =>
    match w.workers s with
    | some ⟨i, .at v pc⟩ => v.evalRunId != r || plan.answers i c pc
    | _ => true
  | .handler h _ =>
    match w.handlers h with
    | some (.cancelCommit r') | some (.replayCommit _ r') => r' != r
    | _ => true
  | _ => true

/-- Messages are delivered once, nobody dies, and the plan is followed. -/
def Scripted (plan : Plan) (r : RunId) (w : World σ η) (l : Label σ η) : Prop :=
  Calm w l ∧ plan.allows r w l = true

instance (plan : Plan) (r : RunId) (w : World σ η) (l : Label σ η) :
    Decidable (Scripted plan r w l) :=
  inferInstanceAs (Decidable (Calm w l ∧ plan.allows r w l = true))

theorem Plan.allows_exec {σ η : Type} {w : World σ η}
    {plan : Plan} {s : σ} {c : Choice} {i : ItemId} {v : Loaded} {pc : Pc}
    (h : plan.allows v.evalRunId w (.exec s c) = true) (he : w.workers s = some ⟨i, .at v pc⟩) :
    plan.answers i c pc = true := by
  simpa [Plan.allows, he] using h

theorem Plan.not_replayed {σ η : Type} {w : World σ η}
    {plan : Plan} {h : η} {now : Timestamp} {i : ItemId} {r r' : RunId}
    (hS : Sane cfg w) (hok : plan.allows r w (.handler h now) = true)
    (hx : w.handlers h = some (.replayCommit i r')) : w.runOf i ≠ some r := by
  have hne : r' ≠ r := by simpa [Plan.allows, hx] using hok
  intro hr
  exact hne (Option.some.inj ((hS.replaying h _ i r' hx rfl).symm.trans hr))

/-- A run nobody cancels does not become cancelled. -/
theorem Plan.not_cancels {plan : Plan} {l : Label σ η} {r : RunId}
    (hok : plan.allows r w l = true) (hs : step cfg w l = some w') :
    cancelsRun cfg r (w, l) = false := by
  simp only [cancelsRun, hs, Bool.and_eq_false_iff, bne_eq_false_iff_eq, beq_eq_false_iff_ne]
  by_contra hno
  push Not at hno
  obtain ⟨hbefore, hafter⟩ := hno
  obtain ⟨run', hrun', hst'⟩ := Option.map_eq_some_iff.mp hafter
  cases hrun : w.store.db.runs.get r with
  | none =>
    obtain ⟨_, _, itemIds, _, -, -, -, -, -, hst⟩ := step_run_new hs hrun' hrun
    split at hst <;> exact absurd (hst.1.symm.trans hst') (by simp)
  | some run =>
    have hch := runChange hs hrun hrun'
    cases hch with
    | keep | rollup => exact hbefore (by rw [World.runStatusOf, hrun]; exact congrArg some hst')
    | cancel hh _ => simp [Plan.allows, hh] at hok
    | _ => exact absurd hst' (by simp)

/-- The run as `create_eval_run` leaves it, and a plan its budget covers. -/
structure Funded (cfg : Config) (plan : Plan) (r : RunId) (w : World σ η) : Prop where
  fresh : ∀ i row, w.store.db.items.get i = some row → row.evalRunId = r →
    row.IsNew cfg.catalog r
  nonneg : ∀ i row, w.store.db.items.get i = some row → row.evalRunId = r →
    0 ≤ plan.cost cfg i row
  total : (w.store.db.items.sumBy fun i row =>
    if row.evalRunId = r then plan.cost cfg i row else 0) ≤ cfg.spendLimit.amount

/-- A planned item costs what the plan says. -/
theorem Funded.cost {σ η : Type} {w : World σ η}
    {plan : Plan} {r : RunId} (hF : Funded cfg plan r w) {i : ItemId}
    {x : ItemRecord} (hx : w.store.db.recordOf i = some x) (hr : x.row.evalRunId = r) :
    (plan.outcome cfg i x .start).row.cost = plan.cost cfg i x.row := by
  have hnew := hF.fresh i x.row (Db.recordOf_eq_some.mp hx).1 hr
  have hcost := hnew.spending.1
  obtain ⟨p, hp, htask, -⟩ := hnew
  exact outcome_cost hcost (by rw [hp]; exact htask)

/-- Once every item is done at most once, an execution remembers nothing it has to take back. -/
theorem Once.prevMatches {σ η : Type} {w : World σ η}
    (hO : Once cfg w) (l : Label σ η) : PrevMatches w l := by
  rintro s c i v res row - he hrow hst
  have hfit := hO.fits i _ _ row (.worker he rfl) hrow
  obtain ⟨hcost, hprompt, hcompletion⟩ := hfit.unspent (by simp [hst])
  obtain ⟨hpc, hpt⟩ := hfit.prev v _ rfl
  simp [hpc, hpt, RunItem.cost, RunItem.tokens, hcost, hprompt, hcompletion]

/-! ## 5. The invariant -/

/-- Where a run that started in `w` can be. -/
structure Course (cfg : Config) (plan : Plan) (r : RunId) (w u : World σ η) : Prop where
  once : Once cfg u
  progress : Progress u
  ledger : Ledger u
  clean : Clean u r
  run : ∃ run, u.store.db.runs.get r = some run
  items : ∀ i, u.runOf i = some r ↔ w.runOf i = some r
  /-- What becomes of an item somebody holds is its outcome. -/
  held : ∀ i x₀ a p, w.store.db.recordOf i = some x₀ → x₀.row.evalRunId = r → u.Holds i a p →
    ∃ x, u.store.db.recordOf i = some x ∧
      plan.outcome cfg i x p = plan.outcome cfg i x₀ .start
  /-- An item nobody holds any more has reached it. -/
  free : ∀ i x₀, w.store.db.recordOf i = some x₀ → x₀.row.evalRunId = r →
    (∀ a p, ¬ u.Holds i a p) →
      u.store.db.recordOf i = some (plan.outcome cfg i x₀ .start)

variable {plan : Plan} {r : RunId} {u u' : World σ η}

/-- An item of the run and its record at the start. -/
theorem exists_start {σ η : Type} {w : World σ η} {i : ItemId} (hi : w.runOf i = some r) :
    ∃ x₀, w.store.db.recordOf i = some x₀ ∧ x₀.row.evalRunId = r := by
  obtain ⟨row, hrow, hr⟩ := Option.map_eq_some_iff.mp hi
  obtain ⟨x₀, hx₀, rfl⟩ := Db.exists_recordOf hrow
  exact ⟨x₀, hx₀, hr⟩

/-- So far, an item has cost no more than it will. -/
theorem Course.cost_le {σ η : Type} {w u : World σ η}
    (hF : Funded cfg plan r w) (hC : Course cfg plan r w u) {i : ItemId}
    {x₀ : ItemRecord} {row : RunItem} (hx₀ : w.store.db.recordOf i = some x₀)
    (hr₀ : x₀.row.evalRunId = r) (hrow : u.store.db.items.get i = some row) :
    row.cost ≤ plan.cost cfg i x₀.row := by
  by_cases hheld : ∃ a p, u.Holds i a p
  · obtain ⟨a, p, ha⟩ := hheld
    obtain ⟨x, hx, hout⟩ := hC.held i x₀ a p hx₀ hr₀ ha
    obtain rfl := Option.some.inj ((Db.recordOf_eq_some.mp hx).1.symm.trans hrow)
    have hfit := hC.once.fits i a p _ ha hrow
    by_cases hst : x.row.status = .succeeded
    · cases p with
      | start => exact absurd hfit.status (by simp [Phase.allows, hst])
      | «at» v pc =>
        have hpc : pc.allows .succeeded = true := hst ▸ hfit.status
        rw [← hF.cost hx₀ hr₀, ← hout, Plan.outcome, rest_cost hpc]
    · have hzero : x.row.cost = 0 := by rw [RunItem.cost, (hfit.unspent hst).1]; rfl
      rw [hzero]
      exact hF.nonneg i x₀.row (Db.recordOf_eq_some.mp hx₀).1 hr₀
  · have hx := hC.free i x₀ hx₀ hr₀ fun a p ha => hheld ⟨a, p, ha⟩
    obtain rfl := Option.some.inj ((Db.recordOf_eq_some.mp hx).1.symm.trans hrow)
    rw [hF.cost hx₀ hr₀]

/-- The spend check finds the run within its limit. -/
theorem Course.within {σ η : Type} {w u : World σ η}
    (hF : Funded cfg plan r w) (hC : Course cfg plan r w u) {run : EvalRun}
    (hr : u.store.db.runs.get r = some run) : overBudget cfg.spendLimit run = false := by
  have hle : run.totalCostUsd ≤ cfg.spendLimit.amount := by
    rw [(hC.ledger r run hr).1]
    refine le_trans (Table.sumBy_le_of_get fun i => ?_) hF.total
    by_cases hi : w.runOf i = some r
    · obtain ⟨x₀, hx₀, hr₀⟩ := exists_start hi
      obtain ⟨row, hrow, hir⟩ := Option.map_eq_some_iff.mp ((hC.items i).mpr hi)
      rw [hrow, (Db.recordOf_eq_some.mp hx₀).1, Option.elim_some, Option.elim_some, if_pos hir,
        if_pos hr₀]
      exact hC.cost_le hF hx₀ hr₀ hrow
    · have hi' : u.runOf i ≠ some r := fun h => hi ((hC.items i).mp h)
      unfold World.runOf at hi hi'
      cases hrow : u.store.db.items.get i <;> cases hrow₀ : w.store.db.items.get i <;>
        simp_all
  simp [overBudget, not_lt.mpr hle]

theorem Course.not_aborts {σ η : Type} {w u : World σ η}
    (hF : Funded cfg plan r w) (hC : Course cfg plan r w u)
    (l : Label σ η) : abortsRun cfg r (u, l) = false := by
  obtain ⟨run, hrun⟩ := hC.run
  unfold abortsRun
  split
  · simp [hrun, hC.within hF hrun]
  · rfl

/-! ## 6. One step -/

/-- The initial read of a held item lets it go on. -/
theorem Course.start_goes {σ η : Type} {w u : World σ η}
    (hC : Course cfg plan r w u) {i : ItemId} {a : Holder σ η}
    {x : ItemRecord} (hx : u.store.db.recordOf i = some x) (hr : x.row.evalRunId = r)
    (ha : u.Holds i a .start) :
    ∃ v, cfg.loaded x.row = some v ∧
      startRunItem cfg i u.store.db = .goto (.at v (nextAttempt cfg.retry 1 "None")) := by
  have hrow := (Db.recordOf_eq_some.mp hx).1
  obtain ⟨⟨task, htask⟩, endpoint, hend⟩ := hC.once.sane.catalog_of_item i x.row hrow
  obtain ⟨run, hrun⟩ := hC.once.sane.run_of_item i x.row hrow
  have hq : x.row.status = .queued := by
    have hst := (hC.once.fits i a _ _ ha hrow).status
    have hne := hC.clean.held i a _ _ ha hrow hr
    simpa [Phase.allows, hne] using hst
  have hnc : run.status ≠ .cancelled := by
    intro hst
    exact hC.clean.not_cancelled (by rw [World.runStatusOf, ← hr, hrun, Option.map_some, hst])
  have hnf : run.status ≠ .failed := fun hst => hC.once.failed i x.row run hrow hrun hst hq
  refine ⟨⟨x.row.evalRunId, task, endpoint, x.row.cost, x.row.tokens⟩, ?_, ?_⟩
  · simp [Config.loaded, htask, hend]
  · simp [startRunItem, loadRunItem, hrow, htask, hend, hrun, hnc, hnf, hq]

/-- What nobody's execution writes stays. -/
theorem Course.untouched (hF : Funded cfg plan r w) (hC : Course cfg plan r w u) {l : Label σ η}
    (hok : Scripted plan r u l) (hs : step cfg u l = some u') {i : ItemId} {x : ItemRecord}
    (hx : u.store.db.recordOf i = some x) (hr : x.row.evalRunId = r)
    (hout : ∀ row', ItemChange cfg u i x.row l row' → OutsideChange cfg u i x.row l row')
    (hno : ∀ s c v gs review, l = .exec s c →
      u.workers s ≠ some ⟨i, .at v (.gradeCommit gs review)⟩) :
    u'.store.db.recordOf i = some x := by
  have hrow := (Db.recordOf_eq_some.mp hx).1
  obtain ⟨row', hrow', hch⟩ := step_item hs hrow
  refine step_recordOf hs hx (hrow'.trans ?_) hno
  rcases hC.clean.keep_of_outside hC.once hs (Plan.not_cancels hok.2 hs) (hC.not_aborts hF l) hrow
    hr (hout row' hch) with rfl | ⟨-, -, h, now, r', rfl, hh⟩
  · rfl
  · exact absurd (by simp [World.runOf, hrow, hr]) (Plan.not_replayed hC.once.sane hok.2 hh)

/-- A step of an execution that does not end there. -/
theorem Course.moved (hC : Course cfg plan r w u) {s : σ} {c : Choice}
    (hok : Scripted plan r u (.exec s c)) (hs : step cfg u (.exec s c) = some u') {i : ItemId}
    {v : Loaded} {pc pc' : Pc} {x : ItemRecord} (he : u.workers s = some ⟨i, .at v pc⟩)
    (hp : (Phase.at v pc).owns = true) (hx : u.store.db.recordOf i = some x)
    (hr : x.row.evalRunId = r) (hstep : PcStep cfg c i v u.store pc pc') :
    u'.store.db.recordOf i = some (x.after i v pc) ∧
      plan.outcome cfg i (x.after i v pc) (.at v pc') = plan.outcome cfg i x (.at v pc) := by
  have hrow := (Db.recordOf_eq_some.mp hx).1
  have hfit := hC.once.fits i _ _ _ (.worker he hp) hrow
  obtain ⟨row, hrow₁, hv, -⟩ := hC.once.sane.loaded s i v pc he
  obtain rfl := Option.some.inj (hrow.symm.trans hrow₁)
  have hq : ∀ res, pc = .abortCheck res → x.row.status ≠ .queued := by
    rintro res rfl hq
    have := hfit.status
    simp [Phase.allows, Pc.allows, hq] at this
  have hskip : pc'.skips = false := by
    rw [Bool.eq_false_iff]
    intro hskip
    refine hC.clean.not_cancelled ?_
    rw [← hr, ← hv]
    exact hstep.skips hskip
  have hplan : plan.answers i c pc = true := by
    have hok := hok.2
    rw [← hr, ← hv] at hok
    exact Plan.allows_exec hok he
  obtain ⟨e, he', rfl⟩ := step_exec hs
  obtain rfl := Option.some.inj (he.symm.trans he')
  rw [World.afterExec_store]
  exact ⟨stepRunItem_recordOf hx hq, rest_of_next hx hplan hstep hskip⟩

/-- The run of an item, and of its record, is what it was. -/
theorem Course.runOf {σ η : Type} {w u : World σ η}
    (hC : Course cfg plan r w u) {i : ItemId} {x₀ : ItemRecord}
    (hx₀ : w.store.db.recordOf i = some x₀) (hr₀ : x₀.row.evalRunId = r) : u.runOf i = some r :=
  (hC.items i).mpr (by simp [World.runOf, (Db.recordOf_eq_some.mp hx₀).1, hr₀])

theorem Course.evalRunId_eq {σ η : Type} {w u : World σ η}
    (hC : Course cfg plan r w u) {i : ItemId} {x₀ x : ItemRecord}
    (hx₀ : w.store.db.recordOf i = some x₀) (hr₀ : x₀.row.evalRunId = r)
    (hx : u.store.db.recordOf i = some x) : x.row.evalRunId = r := by
  simpa [World.runOf, (Db.recordOf_eq_some.mp hx).1] using hC.runOf hx₀ hr₀

theorem Course.held_step (hF : Funded cfg plan r w) (hC : Course cfg plan r w u) {l : Label σ η}
    (hok : Scripted plan r u l) (hs : step cfg u l = some u') {i : ItemId} {x₀ : ItemRecord}
    (hx₀ : w.store.db.recordOf i = some x₀) (hr₀ : x₀.row.evalRunId = r) {a : Holder σ η}
    {p : Phase} (ha : u'.Holds i a p) :
    ∃ x, u'.store.db.recordOf i = some x ∧
      plan.outcome cfg i x p = plan.outcome cfg i x₀ .start := by
  have hi := hC.runOf hx₀ hr₀
  have hir : ∀ {x}, u.store.db.recordOf i = some x → x.row.evalRunId = r :=
    fun hx => hC.evalRunId_eq hx₀ hr₀ hx
  cases step_holds hC.once.single hok.1.tame hs ha with
  | kept hw hl =>
    obtain ⟨x, hx, hout⟩ := hC.held i x₀ a p hx₀ hr₀ hw
    refine ⟨x, hC.untouched hF hok hs hx (hir hx)
      (fun _ => hC.once.single.outside_of_kept hw hl) ?_, hout⟩
    rintro s c v gs review rfl he
    obtain rfl := hC.once.one i _ _ _ _ hw (.worker he rfl)
    exact hl rfl
  | delivered hw =>
    obtain ⟨x, hx, hout⟩ := hC.held i x₀ _ _ hx₀ hr₀ hw
    exact ⟨x, by rw [(step_quiet hs rfl).1, hx], hout⟩
  | published hx hi =>
    obtain ⟨x, hrec, hout⟩ :=
      hC.held i x₀ _ _ hx₀ hr₀ (.request hx (Handler.publishes_mem hi))
    refine ⟨x, hC.untouched hF hok hs hrec (hir hrec) (fun row' hch => ?_) (by simp), hout⟩
    exact hch.outside.resolve_left (by rintro ⟨_, _, _, _, hl, -⟩; exact absurd hl (by simp))
  | @moved s c p₀ p' hw hn hp =>
    have hown := owns_of_goto hn hp
    have hheld := World.Holds.worker hw hown
    obtain ⟨x, hx, hout⟩ := hC.held i x₀ _ _ hx₀ hr₀ hheld
    cases p₀ with
    | start =>
      obtain ⟨v, hload, hgo⟩ := hC.start_goes hx (hir hx) hheld
      obtain rfl := Next.goto.inj (hgo.symm.trans hn)
      obtain ⟨e, he, rfl⟩ := step_exec hs
      obtain rfl := Option.some.inj (hw.symm.trans he)
      refine ⟨x, by rw [World.afterExec_store]; exact hx, ?_⟩
      rw [← hout]
      simp only [Plan.outcome, hload]
    | «at» v pc =>
      obtain ⟨pc', rfl, hstep⟩ := stepRunItem_next hn
      obtain ⟨hx', hrest⟩ := hC.moved hok hs hw hown hx (hir hx) hstep
      exact ⟨_, hx', hrest.trans hout⟩
  | created hc hmem =>
    have hnone := hc.fresh.2.1 i hmem
    simp [World.runOf, hnone] at hi
  | requeued hx => exact absurd hi (Plan.not_replayed hC.once.sane hok.2 hx)

/-- An execution that lets go of its item has done all there is to do. -/
theorem Course.released (hF : Funded cfg plan r w) (hC : Course cfg plan r w u) {s : σ} {c : Choice}
    (hok : Scripted plan r u (.exec s c)) (hs : step cfg u (.exec s c) = some u') {i : ItemId}
    {p : Phase} {x : ItemRecord} (hw : u.workers s = some ⟨i, p⟩) (hp : p.owns = true)
    (hrel : ∀ p', (executeRunItem cfg c i u.store p).2 = .goto p' → p'.owns = false)
    (hx : u.store.db.recordOf i = some x) (hr : x.row.evalRunId = r) :
    u'.store.db.recordOf i = some (plan.outcome cfg i x p) := by
  have hheld := World.Holds.worker hw hp
  have hrow := (Db.recordOf_eq_some.mp hx).1
  have hfit := (hC.once.fits i _ _ _ hheld hrow).status
  cases p with
  | start =>
    obtain ⟨v, -, hgo⟩ := hC.start_goes hx hr hheld
    have hno := hrel _ hgo
    simp only [nextAttempt] at hno
    split at hno <;> exact absurd hno (by simp [Phase.owns])
  | «at» v pc =>
    by_cases hgo : ∃ p', (stepRunItem cfg c i v u.store pc).2 = .goto p'
    · obtain ⟨p', hn⟩ := hgo
      obtain ⟨pc', rfl, hstep⟩ := stepRunItem_next hn
      obtain ⟨hx', hrest⟩ := hC.moved hok hs hw hp hx hr hstep
      rw [hx', ← hrest]
      have hdone := hrel _ hn
      cases pc' with
      | publishDeadLetter | maybeComplete => rfl
      | _ => exact absurd hdone (by simp [Phase.owns])
    · obtain ⟨row, hrow₁, hv, -⟩ := hC.once.sane.loaded s i v pc hw
      obtain rfl := Option.some.inj (hrow.symm.trans hrow₁)
      have hskip : pc.skips ≠ true := by
        intro hskip
        refine hC.clean.not_cancelled ?_
        rw [← hr, ← hv]
        exact hC.once.sane.skipping s i v pc hw hskip
      cases stepRunItem_ends fun p' hn => hgo ⟨p', hn⟩ with
      | skipCancelled | dropCancelled => exact absurd rfl hskip
      | skipAborted =>
        simp only [Phase.allows, Pc.allows, beq_iff_eq] at hfit
        exact absurd hfit (hC.clean.held i _ _ _ hheld hrow hr)
      | lost hmiss =>
        simp only [Phase.allows, Pc.allows, beq_iff_eq] at hfit
        exact absurd (hmiss.symm.trans (finaliseRunItem_iff.mpr ⟨_, hrow, hfit⟩)) (by simp)
      | aborted ha =>
        obtain ⟨run, hrun, hover⟩ := abortOverBudget_iff.mp ha
        rw [hv, hr] at hrun
        exact absurd hover (by simp [hC.within hF hrun])
      | checked => exact absurd hp (by simp [Phase.owns])

theorem Course.free_step (hF : Funded cfg plan r w) (hC : Course cfg plan r w u) {l : Label σ η}
    (hok : Scripted plan r u l) (hs : step cfg u l = some u') {i : ItemId} {x₀ : ItemRecord}
    (hx₀ : w.store.db.recordOf i = some x₀) (hr₀ : x₀.row.evalRunId = r)
    (hfree : ∀ a p, ¬ u'.Holds i a p) :
    u'.store.db.recordOf i = some (plan.outcome cfg i x₀ .start) := by
  have hir : ∀ {x}, u.store.db.recordOf i = some x → x.row.evalRunId = r :=
    fun hx => hC.evalRunId_eq hx₀ hr₀ hx
  by_cases hheld : ∃ a p, u.Holds i a p
  · obtain ⟨a, p, ha⟩ := hheld
    obtain ⟨x, hx, hout⟩ := hC.held i x₀ a p hx₀ hr₀ ha
    rcases holds_forward hok.1 hs ha with ⟨b, q, hb⟩ | ⟨s, c, rfl, hw, hp, hrel⟩
    · exact absurd hb (hfree b q)
    · rw [← hout]
      exact hC.released hF hok hs hw hp hrel hx (hir hx)
  · have hfree₀ : ∀ a p, ¬ u.Holds i a p := fun a p ha => hheld ⟨a, p, ha⟩
    have hx := hC.free i x₀ hx₀ hr₀ hfree₀
    refine hC.untouched hF hok hs hx (hir hx) (fun _ => outside_of_free hfree₀) ?_
    rintro s c v gs review - he
    exact hfree₀ _ _ (.worker he rfl)

theorem course_step (hF : Funded cfg plan r w) {l : Label σ η} (hC : Course cfg plan r w u)
    (hok : Scripted plan r u l) (hs : step cfg u l = some u') : Course cfg plan r w u' where
  once := once_step hC.once hok.1 hs
  progress := progress_step hC.once hok.1 hC.progress hs
  ledger := ledger_step hC.once.sane hC.ledger (hC.once.prevMatches l) hs
  clean := clean_step hC.once hok.1 hC.clean hs (Plan.not_cancels hok.2 hs) (hC.not_aborts hF l)
  run := by
    obtain ⟨run, hrun⟩ := hC.run
    obtain ⟨run', hrun', -⟩ := step_run hs hrun
    exact ⟨run', hrun'⟩
  items := by
    intro i
    rw [← hC.items i]
    refine ⟨fun hi => ?_, step_runOf hs⟩
    obtain ⟨row', hrow', hr⟩ := Option.map_eq_some_iff.mp hi
    cases hrow : u.store.db.items.get i with
    | some row =>
      have hch := itemChange hs hrow hrow'
      simp [World.runOf, hrow, ← hr, hch.keeps.1]
    | none =>
      -- a new item would be in a new run
      obtain ⟨_, _, r', _, _, -, hc, -, pair, rfl, -⟩ := step_item_new hs hrow' hrow
      obtain ⟨run, hrun⟩ := hC.run
      obtain rfl : r' = r := hr
      exact absurd (hrun.symm.trans hc.fresh.2.2) (by simp)
  held _ _ _ _ hx₀ hr₀ ha := hC.held_step hF hok hs hx₀ hr₀ ha
  free _ _ hx₀ hr₀ hfree := hC.free_step hF hok hs hx₀ hr₀ hfree

/-! ## 7. Whole runs -/

theorem course_of_run (hF : Funded cfg plan r w) {tr : List (World σ η × Label σ η)}
    (hC : Course cfg plan r w w) (h : Run (step cfg) w tr u) (hok : Along (Scripted plan r) tr) :
    Course cfg plan r w u :=
  h.invariant (fun _ _ _ hC hok hs => course_step hF hC hok hs) hok hC

/-- The ledger of a schedule in which every item is done at most once. -/
theorem ledger_of_calm {tr : List (World σ η × Label σ η)} (h : Run (step cfg) World.init tr w)
    (hok : Along Calm tr) : Ledger w := by
  have key : Once cfg w ∧ Ledger w := by
    refine h.invariant (I := fun w => Once cfg w ∧ Ledger w) ?_ hok
      ⟨once_init, fun _ _ h => absurd h (by simp [World.init, Db.empty])⟩
    rintro w l w' ⟨hO, hL⟩ hok hs
    exact ⟨once_step hO hok hs, ledger_step hO.sane hL (hO.prevMatches l) hs⟩
  exact key.2

section Creation

variable {w₀ : World σ η} {h : η} {payload : EvalRunCreate} {itemIds : List ItemId}
  {now : Timestamp}

/-- The items of a run that has just been created are new. -/
theorem fresh_of_create (hS : Sane cfg w₀)
    (hs : step cfg w₀ (.create h payload r itemIds now) = some w)
    (hnew : w₀.store.db.runs.get r = none) {i : ItemId} {row : RunItem}
    (hrow : w.store.db.items.get i = some row) (hr : row.evalRunId = r) :
    i ∈ itemIds ∧ row.IsNew cfg.catalog r := by
  cases hrow₀ : w₀.store.db.items.get i with
  | some row₀ =>
    have hch := itemChange hs hrow₀ hrow
    obtain ⟨run, hrun⟩ := hS.run_of_item i row₀ hrow₀
    rw [← hch.keeps.1, hr, hnew] at hrun
    exact absurd hrun (by simp)
  | none =>
    obtain ⟨_, _, _, _, _, hl, -, hi, hIsNew⟩ := step_item_new hs hrow hrow₀
    obtain ⟨-, -, rfl, rfl, -⟩ := Label.create.inj hl
    exact ⟨hi, hIsNew⟩

/-- **The start.**  The request that created the run holds every item of it. -/
theorem course_start (hO : Once cfg w₀) (hP : Progress w₀) (hL : Ledger w₀)
    (hs : step cfg w₀ (.create h payload r itemIds now) = some w)
    (hnew : w₀.store.db.runs.get r = none) {run₀ : EvalRun}
    (hrun : w.store.db.runs.get r = some run₀) : Course cfg plan r w w := by
  have hcalm : Calm w₀ (.create h payload r itemIds now) := ⟨rfl, by simp [replayed]⟩
  have hallows : plan.allows r w₀ (.create h payload r itemIds now) = true := rfl
  have hO' := once_step hO hcalm hs
  have hnone : ∀ i row, w₀.store.db.items.get i = some row → row.evalRunId ≠ r := by
    rintro i row hrow rfl
    obtain ⟨run, hr⟩ := hO.sane.run_of_item i row hrow
    exact absurd (hnew.symm.trans hr) (by simp)
  have hclean : Clean w₀ r :=
    { not_cancelled := by simp [World.runStatusOf, hnew]
      held := fun i _ _ row _ hrow hr => absurd hr (hnone i row hrow)
      completed := by simp [World.runStatusOf, hnew]
      failed := by simp [World.runStatusOf, hnew] }
  have hcreated : Created cfg w₀ h payload r itemIds now w := by
    rcases step_create hs with rfl | hc
    · exact absurd (hnew.symm.trans hrun) (by simp)
    · exact hc
  refine
    { once := hO', progress := progress_step hO hcalm hP hs
      ledger := ledger_step hO.sane hL (hO.prevMatches _) hs
      clean := clean_step hO hcalm hclean hs (Plan.not_cancels hallows hs) rfl
      run := ⟨run₀, hrun⟩, items := fun _ => Iff.rfl, held := ?_, free := ?_ }
  · intro i x₀ a p hx₀ hr₀ ha
    refine ⟨x₀, hx₀, ?_⟩
    obtain ⟨hi, -⟩ := fresh_of_create hO.sane hs hnew (Db.recordOf_eq_some.mp hx₀).1 hr₀
    cases step_holds hO.single hcalm.tame hs ha with
    | kept hw _ => exact absurd hw (hO.single.not_holds_created hcreated hi a p)
    | created => rfl
  · intro i x₀ hx₀ hr₀ hfree
    have hrow := (Db.recordOf_eq_some.mp hx₀).1
    obtain ⟨-, pair, hrow₀, -⟩ := fresh_of_create hO.sane hs hnew hrow hr₀
    have hact : x₀.row.status.isActive = true := by rw [hrow₀]; rfl
    obtain ⟨a, p, ha⟩ := hO'.active i x₀.row hrow hact
    exact absurd ha (hfree a p)

end Creation

/-- Where the run ends, an item has its outcome. -/
theorem Course.settled {σ η : Type} {w u : World σ η}
    (hC : Course cfg plan r w u) (hq : Quiet u r) {i : ItemId}
    {x₀ : ItemRecord} (hx₀ : w.store.db.recordOf i = some x₀) (hr₀ : x₀.row.evalRunId = r) :
    u.store.db.recordOf i = some (plan.outcome cfg i x₀ .start) := by
  have hi : u.runOf i = some r :=
    (hC.items i).mpr (by simp [World.runOf, (Db.recordOf_eq_some.mp hx₀).1, hr₀])
  exact hC.free i x₀ hx₀ hr₀ (hq.not_holds hi)

/-- Two databases have the same item rows of a run. -/
def SameItems (r : RunId) (db db' : Db) : Prop :=
  ∀ i row, row.evalRunId = r → (db.items.get i = some row ↔ db'.items.get i = some row)

theorem SameItems.sumOver {db db' : Db} (h : SameItems r db db') (f : RunItem → Int) :
    sumOver db r f = sumOver db' r f := by
  refine Table.sumBy_eq_of_get fun i => ?_
  cases hrow : db.items.get i with
  | some row =>
    by_cases hr : row.evalRunId = r
    · rw [(h i row hr).mp hrow]
    · cases hrow' : db'.items.get i with
      | none => simp [hr]
      | some row' =>
        have hr' : row'.evalRunId ≠ r := fun hr' => by
          obtain rfl := Option.some.inj (hrow.symm.trans ((h i row' hr').mpr hrow'))
          exact hr hr'
        simp [hr, hr']
  | none =>
    cases hrow' : db'.items.get i with
    | none => rfl
    | some row' =>
      have hr' : row'.evalRunId ≠ r := fun hr' =>
        absurd (hrow.symm.trans ((h i row' hr').mpr hrow')) (by simp)
      simp [hr']

theorem SameItems.hasDeadLetter {db db' : Db} (h : SameItems r db db') :
    hasDeadLetter db r = hasDeadLetter db' r := by
  rw [Bool.eq_iff_iff, hasDeadLetter_iff, hasDeadLetter_iff]
  constructor <;> rintro ⟨i, row, hrow, hr, hd⟩
  · exact ⟨i, row, (h i row hr).mp hrow, hr, hd⟩
  · exact ⟨i, row, (h i row hr).mpr hrow, hr, hd⟩

/-- Two schedules of the run end with the same item rows. -/
theorem Course.sameItems {σ η : Type} {w : World σ η}
    {u₁ u₂ : World σ η} (hC₁ : Course cfg plan r w u₁) (hq₁ : Quiet u₁ r)
    (hC₂ : Course cfg plan r w u₂) (hq₂ : Quiet u₂ r) : SameItems r u₁.store.db u₂.store.db := by
  have half : ∀ {u u' : World σ η}, Course cfg plan r w u → Quiet u r → Course cfg plan r w u' →
      Quiet u' r → ∀ i row, row.evalRunId = r → u.store.db.items.get i = some row →
      u'.store.db.items.get i = some row := by
    intro u u' hC hq hC' hq' i row hr hrow
    obtain ⟨x₀, hx₀, hr₀⟩ := exists_start ((hC.items i).mp (by simp [World.runOf, hrow, hr]))
    have hget := (Db.recordOf_eq_some.mp (hC.settled hq hx₀ hr₀)).1
    obtain rfl := Option.some.inj (hget.symm.trans hrow)
    exact (Db.recordOf_eq_some.mp (hC'.settled hq' hx₀ hr₀)).1
  exact fun i row hr => ⟨half hC₁ hq₁ hC₂ hq₂ i row hr, half hC₂ hq₂ hC₁ hq₁ i row hr⟩

/-- **Confluence.**  Fix a run as `create_eval_run` leaves it and a plan for its items whose costs
are not negative and in total within the spend limit.  Any two schedules that follow the plan,
deliver every message once and neither cancel nor replay, whose commits the database accepts, and
after which nobody works on the run any more, end with the same rows, grades and reviews of every
item, and with the same totals and status of the run. -/
theorem confluence {tr₀ tr₁ tr₂ : List (World σ η × Label σ η)} {w₀ w₁ w₂ : World σ η} {h : η}
    {payload : EvalRunCreate} {itemIds : List ItemId} {now : Timestamp} {run₀ : EvalRun}
    (h₀ : Run (stepChecked cfg) World.init tr₀ w₀) (hok₀ : Along Calm tr₀)
    (hacc₀ : Along Accepted tr₀)
    (hs : stepChecked cfg w₀ (.create h payload r itemIds now) = some w)
    (hnew : w₀.store.db.runs.get r = none) (hrun : w.store.db.runs.get r = some run₀)
    (hnonneg : ∀ i row, w.store.db.items.get i = some row → row.evalRunId = r →
      0 ≤ plan.cost cfg i row)
    (htotal : (w.store.db.items.sumBy fun i row =>
      if row.evalRunId = r then plan.cost cfg i row else 0) ≤ cfg.spendLimit.amount)
    (h₁ : Run (stepChecked cfg) w tr₁ w₁) (hok₁ : Along (Scripted plan r) tr₁)
    (hacc₁ : Along Accepted tr₁) (hq₁ : Quiet w₁ r)
    (h₂ : Run (stepChecked cfg) w tr₂ w₂) (hok₂ : Along (Scripted plan r) tr₂)
    (hacc₂ : Along Accepted tr₂) (hq₂ : Quiet w₂ r) :
    (∀ i, w.runOf i = some r →
      w₁.store.db.items.get i = w₂.store.db.items.get i ∧
      (w₁.store.db.grades.filter fun g => g.runItemId == i) =
        (w₂.store.db.grades.filter fun g => g.runItemId == i) ∧
      (w₁.store.db.reviews.filter fun x => x.runItemId == i) =
        w₂.store.db.reviews.filter fun x => x.runItemId == i) ∧
      ∃ run₁ run₂, w₁.store.db.runs.get r = some run₁ ∧ w₂.store.db.runs.get r = some run₂ ∧
        run₁.totalCostUsd = run₂.totalCostUsd ∧ run₁.totalTokens = run₂.totalTokens ∧
        run₁.status = run₂.status := by
  have hs' : step cfg w₀ (.create h payload r itemIds now) = some w := hs
  have hrun₀ := (checked_iff_of_accepted hacc₀).mp h₀
  have hI := orderly_of_run hrun₀ hok₀
  have hF : Funded cfg plan r w :=
    ⟨fun i row hrow hr => (fresh_of_create hI.once.sane hs' hnew hrow hr).2, hnonneg, htotal⟩
  have hC : Course cfg plan r w w :=
    course_start hI.once hI.progress (ledger_of_calm hrun₀ hok₀) hs' hnew hrun
  have hC₁ := course_of_run hF hC ((checked_iff_of_accepted hacc₁).mp h₁) hok₁
  have hC₂ := course_of_run hF hC ((checked_iff_of_accepted hacc₂).mp h₂) hok₂
  refine ⟨fun i hi => ?_, ?_⟩
  · obtain ⟨x₀, hx₀, hr₀⟩ := exists_start hi
    obtain ⟨hrow₁, hg₁, hr₁⟩ := Db.recordOf_eq_some.mp (hC₁.settled hq₁ hx₀ hr₀)
    obtain ⟨hrow₂, hg₂, hr₂⟩ := Db.recordOf_eq_some.mp (hC₂.settled hq₂ hx₀ hr₀)
    exact ⟨hrow₁.trans hrow₂.symm, hg₁.symm.trans hg₂, hr₁.symm.trans hr₂⟩
  · obtain ⟨run₁, hrun₁⟩ := hC₁.run
    obtain ⟨run₂, hrun₂⟩ := hC₂.run
    have hsame := hC₁.sameItems hq₁ hC₂ hq₂
    obtain ⟨hcost₁, htok₁⟩ := hC₁.ledger r run₁ hrun₁
    obtain ⟨hcost₂, htok₂⟩ := hC₂.ledger r run₂ hrun₂
    refine ⟨run₁, run₂, hrun₁, hrun₂, ?_, ?_, ?_⟩
    · rw [hcost₁, hcost₂, hsame.sumOver]
    · rw [htok₁, htok₂, hsame.sumOver]
    · rw [verdict_of_quiet hC₁.once hC₁.progress hC₁.clean hrun₁ hq₁,
        verdict_of_quiet hC₂.once hC₂.progress hC₂.clean hrun₂ hq₂, hsame.hasDeadLetter]

/-- One worker does item 0 and then item 1; or two workers take turns. -/
theorem confluence_small : ∃ (w w₁ w₂ : World (Fin 2) (Fin 1)), w.runOf 0 = some 0 ∧
    w.runOf 1 = some 0 ∧ w₁.store.db.items.get 0 = w₂.store.db.items.get 0 ∧
    w₁.store.db.items.get 1 = w₂.store.db.items.get 1 ∧
    ∃ run₁ run₂, w₁.store.db.runs.get 0 = some run₁ ∧ w₂.store.db.runs.get 0 = some run₂ ∧
      run₁.totalCostUsd = run₂.totalCostUsd ∧ run₁.totalTokens = run₂.totalTokens ∧
      run₁.status = run₂.status := by
  let cfg := smallConfig 2 2 5000000
  let grade : Choice := { answers with grading := smallPlan.grading 1 }
  let w : World (Fin 2) (Fin 1) :=
    (stepChecked cfg World.init (.create 0 smallRequest 0 [0, 1] 0)).getD World.init
  have hs : stepChecked cfg (World.init : World (Fin 2) (Fin 1))
    (.create 0 smallRequest 0 [0, 1] 0) = some w := rfl
  obtain ⟨tr₁, w₁, h₁, hok₁, hidle₁⟩ := exists_run_of_play (stepChecked cfg) w
    (fun w l => decide (Scripted smallPlan 0 w l) && decide (Accepted w l))
    ([.handler 0 0, .handler 0 0, .deliver 0 0] ++ execs 0 declines 3 ++
      execs 0 answers 10 ++ [.deliver 0 1] ++ execs 0 grade 11)
    (fun _ u => u.isIdle)
    (by decide)
  obtain ⟨tr₂, w₂, h₂, hok₂, hidle₂⟩ := exists_run_of_play (stepChecked cfg) w
    (fun w l => decide (Scripted smallPlan 0 w l) && decide (Accepted w l))
    ([.handler 0 0, .handler 0 0, .deliver 1 1] ++ execs 1 grade 6 ++ [.deliver 0 0] ++
      execs 0 declines 3 ++ execs 1 grade 5 ++ execs 0 answers 10)
    (fun _ u => u.isIdle)
    (by decide)
  have hsplit : ∀ {tr : List (World (Fin 2) (Fin 1) × Label (Fin 2) (Fin 1))},
      Along (fun u l => (decide (Scripted smallPlan 0 u l) && decide (Accepted u l)) = true) tr →
      Along (Scripted smallPlan 0) tr ∧ Along Accepted tr := fun h =>
    ⟨h.mono fun _ _ h => of_decide_eq_true (Bool.and_eq_true_iff.mp h).1,
      h.mono fun _ _ h => of_decide_eq_true (Bool.and_eq_true_iff.mp h).2⟩
  have hcost : ∀ x ∈ w.store.db.items.rows, 0 ≤ smallPlan.cost cfg x.1 x.2 := by decide
  obtain ⟨run₀, hrun⟩ := Option.isSome_iff_exists.mp
    (show (w.store.db.runs.get 0).isSome = true by decide)
  obtain ⟨hitems, htotals⟩ := confluence (r := 0) Run.nil
    (fun _ h => absurd h (by simp)) (fun _ h => absurd h (by simp)) hs rfl hrun
    (fun i row hrow _ => hcost (i, row) ((Table.mem_rows_iff _).mpr hrow)) (by decide)
    h₁ (hsplit hok₁).1 (hsplit hok₁).2 (quiet_of_isIdle hidle₁ 0)
    h₂ (hsplit hok₂).1 (hsplit hok₂).2 (quiet_of_isIdle hidle₂ 0)
  exact ⟨w, w₁, w₂, rfl, rfl, (hitems 0 rfl).1, (hitems 1 rfl).1, htotals⟩

/-- Every item is answered at once, for 1,500,000,000 tokens. -/
def heavyPlan : Plan where
  completion _ _ := .result ⟨"4", 1500000000, 0, 7⟩
  grading _ := .graded [] none

/-- **The order decides.**  The total has room for one of the two items: the other one is refused,
and stays in `running`. -/
theorem refused_diverges :
    ¬ ∀ (w w₁ w₂ : World (Fin 2) (Fin 1)) (run₀ : EvalRun)
      (tr₁ tr₂ : List (World (Fin 2) (Fin 1) × Label (Fin 2) (Fin 1))),
      stepChecked (smallConfig 2 1 10000000000) World.init (.create 0 smallRequest 0 [0, 1] 0) =
        some w →
      w.store.db.runs.get 0 = some run₀ →
      (∀ i row, w.store.db.items.get i = some row → row.evalRunId = 0 →
        0 ≤ heavyPlan.cost (smallConfig 2 1 10000000000) i row) →
      (w.store.db.items.sumBy fun i row =>
        if row.evalRunId = 0 then heavyPlan.cost (smallConfig 2 1 10000000000) i row else 0) ≤
          10000000000 →
      Run (stepChecked (smallConfig 2 1 10000000000)) w tr₁ w₁ → Along (Scripted heavyPlan 0) tr₁ →
      Quiet w₁ 0 →
      Run (stepChecked (smallConfig 2 1 10000000000)) w tr₂ w₂ → Along (Scripted heavyPlan 0) tr₂ →
      Quiet w₂ 0 →
      w₁.statusOf 0 = w₂.statusOf 0 := by
  intro hclaim
  let cfg := smallConfig 2 1 10000000000
  let heavy : Choice := { answers with completion := heavyPlan.completion 0 1 }
  let w : World (Fin 2) (Fin 1) :=
    (stepChecked cfg World.init (.create 0 smallRequest 0 [0, 1] 0)).getD World.init
  obtain ⟨tr₁, w₁, h₁, hok₁, htest₁⟩ := exists_run_of_play (stepChecked cfg) w
    (fun w l => decide (Scripted heavyPlan 0 w l))
    ([.handler 0 0, .handler 0 0, .deliver 0 0] ++ execs 0 heavy 11 ++ [.deliver 0 1] ++
      execs 0 heavy 6)
    (fun _ u => u.isIdle && u.statusOf 0 == some .succeeded)
    (by decide)
  obtain ⟨tr₂, w₂, h₂, hok₂, htest₂⟩ := exists_run_of_play (stepChecked cfg) w
    (fun w l => decide (Scripted heavyPlan 0 w l))
    ([.handler 0 0, .handler 0 0, .deliver 0 1] ++ execs 0 heavy 11 ++ [.deliver 0 0] ++
      execs 0 heavy 6)
    (fun _ u => u.isIdle && u.statusOf 0 == some .running)
    (by decide)
  obtain ⟨hidle₁, hst₁⟩ := Bool.and_eq_true_iff.mp htest₁
  obtain ⟨hidle₂, hst₂⟩ := Bool.and_eq_true_iff.mp htest₂
  have hcost : ∀ x ∈ w.store.db.items.rows, 0 ≤ heavyPlan.cost cfg x.1 x.2 := by decide
  obtain ⟨run₀, hrun⟩ := Option.isSome_iff_exists.mp
    (show (w.store.db.runs.get 0).isSome = true by decide)
  have hsame := hclaim w w₁ w₂ run₀ tr₁ tr₂ rfl hrun
    (fun i row hrow _ => hcost (i, row) ((Table.mem_rows_iff _).mpr hrow)) (by decide)
    h₁ (hok₁.mono fun _ _ h => of_decide_eq_true h) (quiet_of_isIdle hidle₁ 0)
    h₂ (hok₂.mono fun _ _ h => of_decide_eq_true h) (quiet_of_isIdle hidle₂ 0)
  rw [beq_iff_eq.mp hst₁, beq_iff_eq.mp hst₂] at hsame
  cases hsame

end EvalHarness
