/-
# Transient provider errors (`execute_run_item`, `grade`)

A `RetryableProviderError` reaches the worker from two places.  From the completion call the retry
loop takes it: such an error never fails an item.  From a judge call nothing takes it before the
handler around grading, which fails the item for any error but a `JudgeParseError`, and a failed
item cannot be replayed.  `transient_failures` says for which answers an item is lost in this way,
or stays in `running` because the database refuses what they make the execution write.
-/
import EvalHarness.Judge
import EvalHarness.Retry

namespace EvalHarness

open Lts (Run Follows)
open Py (Str str)

/-! ## 1. Grading with the judge's calls -/

/-- The task's own part of grading does not fail: the rubric validates, the pattern compiles and the
database stores the grade. -/
structure ValidTask (libraries : Libraries) (task : Task) : Prop where
  rubric : ∃ rubric, rubricFromConfig libraries task.graderConfig = .ok rubric
  deterministic : ∀ output, ∃ d, runDeterministic libraries task output = .ok d ∧
    ∀ g, d = some g → storableText g.rationale = true

/-- The criteria the judge is asked for. -/
def rubricOf (libraries : Libraries) (task : Task) : List RubricCriterion :=
  match rubricFromConfig libraries task.graderConfig with
  | .ok (some rubric) => rubric
  | _ => []

/-- What grading makes of a result, the judge's n-th call ending with `answer n`. -/
def graders (libraries : Libraries) (lib : JudgeLibraries) (settings : Settings) (task : Task)
    (answer : Nat → JudgeAnswer) (r : CompletionResult) : GradingOutcome :=
  gradeRunItem libraries settings task r.text
    (judgeOutcome lib (rubricOf libraries task) answer)

/-- The judge calls that grading makes return these texts; there is no second one if the first
answer is accepted. -/
def Told (lib : JudgeLibraries) (rubric : List RubricCriterion) (answer : Nat → JudgeAnswer)
    (first second : Str) : Prop :=
  answer 1 = .text first ∧ (accepted lib rubric first = none → answer 2 = .text second)

section Grading

variable {libraries : Libraries} {lib : JudgeLibraries} {settings : Settings} {task : Task}
  {rubric : List RubricCriterion} {answer : Nat → JudgeAnswer} {first second : Str}
  {r : CompletionResult}

/-- Answers nobody asks for do not matter. -/
theorem grade_told (h : Told lib rubric answer first second) :
    (grade lib rubric answer).2 = (grade lib rubric (answers2 first second)).2 := by
  obtain ⟨hfirst, hsecond⟩ := h
  obtain ⟨v, hv, -, -⟩ | ⟨e, he, hcaught, hacc, -⟩ | ⟨x, hx, -, -⟩ :=
    readVerdict_cases lib rubric first
  · rw [grade_first hv]
    simp [grade, gradeLoop, hfirst, hv]
  · have htold := hsecond hacc
    cases e with
    | other x => exact absurd rfl (hcaught x)
    | parse t => simp [grade, gradeLoop, answers2, hfirst, htold, he]
    | validation t => simp [grade, gradeLoop, answers2, hfirst, htold, he]
  · rw [grade_escapes hx]
    simp [grade, gradeLoop, hfirst, hx]

/-- A call that raises ends the judge. -/
theorem judgeOutcome_of_error {e : GradeExc} (h : (grade lib rubric answer).2 = .error e)
    (hparse : ∀ t, e ≠ .parse t) : ∃ e, judgeOutcome lib rubric answer = .raises e := by
  unfold judgeOutcome
  rw [h]
  cases e with
  | parse t => exact absurd rfl (hparse t)
  | other x => exact ⟨_, rfl⟩
  | provider retryable e => exact ⟨_, rfl⟩

/-- The judge ends with a provider's or a library's error, or its calls return texts. -/
theorem told_or_error (lib : JudgeLibraries) (rubric : List RubricCriterion)
    (answer : Nat → JudgeAnswer) :
    (∃ first second, Told lib rubric answer first second) ∨
      ∃ e, (grade lib rubric answer).2 = .error e ∧ ∀ t, e ≠ .parse t := by
  cases hfirst : answer 1 with
  | retryable e => exact .inr ⟨.provider true e, by simp [grade, gradeLoop, hfirst], by simp⟩
  | nonRetryable e => exact .inr ⟨.provider false e, by simp [grade, gradeLoop, hfirst], by simp⟩
  | text first =>
    obtain ⟨v, -, hacc, -⟩ | ⟨e, he, hcaught, -, -⟩ | ⟨x, hx, -, -⟩ :=
      readVerdict_cases lib rubric first
    · exact .inl ⟨first, first, hfirst, fun hno => by rw [hacc] at hno; cases hno⟩
    · have hloop : (grade lib rubric answer).2 = (gradeLoop lib rubric answer [2] e.text).2 := by
        cases e with
        | other x => exact absurd rfl (hcaught x)
        | parse t => simp [grade, gradeLoop, hfirst, he]
        | validation t => simp [grade, gradeLoop, hfirst, he]
      rw [hloop]
      cases hsecond : answer 2 with
      | text second => exact .inl ⟨first, second, hfirst, fun _ => hsecond⟩
      | retryable e' => exact .inr ⟨.provider true e', by simp [gradeLoop, hsecond], by simp⟩
      | nonRetryable e' => exact .inr ⟨.provider false e', by simp [gradeLoop, hsecond], by simp⟩
    · exact .inr ⟨.other x, by simp [grade, gradeLoop, hfirst, hx], by simp⟩

/-- **When grading fails.**  For a valid task it takes a judge, and answers that are not texts the
pipeline handles. -/
theorem graders_fail_iff (hvalid : ValidTask libraries task) :
    (graders libraries lib settings task answer r).commits = false ↔
      ∃ rubric, rubricFromConfig libraries task.graderConfig = .ok (some rubric) ∧
        ¬ ∃ first second, Told lib rubric answer first second ∧
          Handled libraries lib settings task r.text rubric first second := by
  obtain ⟨rubric?, hrubric⟩ := hvalid.rubric
  obtain ⟨d, hd, hstored⟩ := hvalid.deterministic r.text
  cases rubric? with
  | none =>
    have hcommits : (graders libraries lib settings task answer r).commits = true := by
      cases d with
      | none => simp [graders, gradeRunItem, hrubric, hd, GradingOutcome.commits, storableGrades]
      | some g =>
        simp [graders, gradeRunItem, hrubric, hd, GradingOutcome.commits, storableGrades,
          DeterministicGrade.toGrade, hstored g rfl]
    simp [hcommits, hrubric]
  | some rubric =>
    have hof : graders libraries lib settings task answer r =
        gradeRunItem libraries settings task r.text (judgeOutcome lib rubric answer) := by
      simp [graders, rubricOf, hrubric]
    have htold : ∀ first second, Told lib rubric answer first second →
        judgeOutcome lib rubric answer = judgeOutcome lib rubric (answers2 first second) := by
      intro first second ht
      rw [judgeOutcome, grade_told ht, judgeOutcome]
    simp only [hof, hrubric, Except.ok.injEq, Option.some.injEq, exists_eq_left']
    constructor
    · rintro hfail ⟨first, second, ht, hhandled⟩
      obtain ⟨_, _, hgraded, hgs⟩ := gradeRunItem_of_handled hrubric hhandled
      rw [htold first second ht, hgraded, GradingOutcome.commits, hgs] at hfail
      cases hfail
    · intro hno
      obtain ⟨first, second, ht⟩ | ⟨e, he, hparse⟩ := told_or_error lib rubric answer
      · rw [htold first second ht]
        exact gradeRunItem_of_not_handled hrubric fun hh => hno ⟨first, second, ht, hh⟩
      · obtain ⟨e', he'⟩ := judgeOutcome_of_error he hparse
        simp [gradeRunItem, hd, hrubric, he', GradingOutcome.commits]

end Grading

/-! ## 2. Which items are lost -/

/-- The answers of the judge lose an item with this result: it has no grades yet, a judge is asked,
and the calls do not all return texts that the pipeline handles.  With an error that `_mark_failed`
cannot store the item is not failed: it stays succeeded. -/
structure LostInGrading (libraries : Libraries) (lib : JudgeLibraries) (settings : Settings)
    (answer : Nat → JudgeAnswer) {cfg : Config} {rid : ItemId} {m : Backend}
    (x : Executable cfg rid m) (r : CompletionResult) : Prop where
  fresh : gradesOf m.db rid = []
  judged : ∃ rubric, rubricFromConfig libraries x.task.graderConfig = .ok (some rubric) ∧
    ¬ ∃ first second, Told lib rubric answer first second ∧
      Handled libraries lib settings x.task r.text rubric first second
  text : (graders libraries lib settings x.task answer r).errorStored = true

/-- The item is not lost: the columns take its result and grading does not lose it, or the last of
its errors is stored. -/
structure KeepsItem (libraries : Libraries) (lib : JudgeLibraries) (settings : Settings)
    (answer : Nat → JudgeAnswer) {cfg : Config} {rid : ItemId} {m : Backend}
    (x : Executable cfg rid m) (outcomes : Nat → Completion) : Prop where
  result : ∀ n r, AnsweredAt cfg outcomes n r →
    x.Takes r ∧ ¬ LostInGrading libraries lib settings answer x r
  lastError : Declined outcomes cfg.retry.maxAttempts →
    storableText (lastError outcomes cfg.retry.maxAttempts) = true

section Lost

variable {cfg : Config} {rid : ItemId} {m m' : Backend} {x : Executable cfg rid m}
  {outcomes : Nat → Completion} {n : Nat} {libraries : Libraries} {lib : JudgeLibraries}
  {settings : Settings} {answer : Nat → JudgeAnswer}

theorem AnsweredAt.unique {k : Nat} {r r' : CompletionResult} (h : AnsweredAt cfg outcomes n r)
    (h' : AnsweredAt cfg outcomes k r') : r = r' := by
  have hout := h'.outcome
  rw [← h.first.unique h'.first, h.outcome] at hout
  exact Completion.result.inj hout

theorem AnsweredAt.not_declined {r : CompletionResult} (h : AnsweredAt cfg outcomes n r) :
    ¬ Declined outcomes cfg.retry.maxAttempts :=
  fun hall => absurd (hall.lt h.first) (Nat.not_lt.mpr h.le)

/-- With a result, the item is kept or not by what becomes of that result. -/
theorem AnsweredAt.keepsItem_iff {r : CompletionResult} (h : AnsweredAt cfg outcomes n r) :
    KeepsItem libraries lib settings answer x outcomes ↔
      x.Takes r ∧ ¬ LostInGrading libraries lib settings answer x r := by
  constructor
  · exact fun hkeeps => hkeeps.result n r h
  · exact fun hr => ⟨fun _ _ h' => h.unique h' ▸ hr, fun hall => absurd hall h.not_declined⟩

/-- Without one, by the last error. -/
theorem Declined.keepsItem_iff (h : Declined outcomes cfg.retry.maxAttempts) :
    KeepsItem libraries lib settings answer x outcomes ↔
      storableText (lastError outcomes cfg.retry.maxAttempts) = true := by
  constructor
  · exact fun hkeeps => hkeeps.lastError h
  · exact fun htext => ⟨fun _ _ h' => absurd h h'.not_declined, fun _ => htext⟩

/-- Grading that commits loses nothing, and grading that does not commit loses a fresh item. -/
theorem lostInGrading_iff (hvalid : ValidTask libraries x.task) {r : CompletionResult}
    (hfresh : gradesOf m.db rid = []) :
    LostInGrading libraries lib settings answer x r ↔
      (graders libraries lib settings x.task answer r).commits = false ∧
        (graders libraries lib settings x.task answer r).errorStored = true := by
  rw [graders_fail_iff hvalid]
  exact ⟨fun h => ⟨h.judged, h.text⟩, fun h => ⟨hfresh, h.1, h.2⟩⟩

/-- How the item stands when an execution has returned. -/
theorem Ends.keepsItem {ret : Return} (hvalid : ValidTask libraries x.task)
    (hretryable : ∀ j e, outcomes j ≠ .nonRetryable e)
    (h : Ends x outcomes (fun r g => g = graders libraries lib settings x.task answer r) n m' ret) :
    (x.Holds m' .succeeded n ∧ KeepsItem libraries lib settings answer x outcomes) ∨
      (x.Holds m' .deadLettered n ∧ KeepsItem libraries lib settings answer x outcomes) ∨
      (x.Holds m' .failed n ∧ ¬ KeepsItem libraries lib settings answer x outcomes) ∨
      ret = ⟨.item .succeeded, some .runAborted⟩ := by
  cases h with
  | aborted => exact .inr (.inr (.inr rfl))
  | rejected _ _ outcome => exact absurd outcome (hretryable _ _)
  | @graded r paid _ row graded =>
    refine .inl ⟨row, paid.keepsItem_iff.mpr ⟨paid.takes, fun hl => ?_⟩⟩
    obtain hold | ⟨g, rfl, hg⟩ := graded
    · exact hold hl.fresh
    · have hlost := ((lostInGrading_iff hvalid hl.fresh).mp hl).1
      exact absurd (hg.symm.trans hlost) (by simp)
  | gradingFailed paid _ row fresh graders lost text =>
    subst graders
    refine .inr (.inr (.inl ⟨row, fun hkeeps => (paid.keepsItem_iff.mp hkeeps).2 ?_⟩))
    exact (lostInGrading_iff hvalid fresh).mpr ⟨lost, text⟩
  | exhausted all declined text _ row =>
    subst all
    exact .inr (.inl ⟨row, declined.keepsItem_iff.mpr text⟩)

/-- And when it was cut short: it stays in `running`, or succeeded and ungraded. -/
theorem Cut.keepsItem (hretryable : ∀ j e, outcomes j ≠ .nonRetryable e)
    (h : Cut x outcomes (fun r g => g = graders libraries lib settings x.task answer r) n m') :
    (x.Holds m' .running n ∧ ¬ KeepsItem libraries lib settings answer x outcomes) ∨
      (x.Holds m' .succeeded n ∧ KeepsItem libraries lib settings answer x outcomes) := by
  cases h with
  | finalise answered full _ row =>
    exact .inl ⟨row, fun hkeeps => full (answered.keepsItem_iff.mp hkeeps).1⟩
  | rejected _ _ outcome => exact absurd outcome (hretryable _ _)
  | exhausted all declined text _ row =>
    subst all
    refine .inl ⟨row, fun hkeeps => ?_⟩
    exact absurd (text.symm.trans (declined.keepsItem_iff.mp hkeeps)) (by simp)
  | gradingFailed paid _ row fresh graders lost text =>
    subst graders
    refine .inr ⟨row, paid.keepsItem_iff.mpr ⟨paid.takes, fun hl => ?_⟩⟩
    exact absurd (text.symm.trans hl.text) (by simp)

end Lost

/-- One attempt at the item of `judgedTask`. -/
def judgedConfig : Config where
  retry := ⟨1⟩
  spendLimit := ⟨5000000, "10.00"⟩
  catalog :=
    { taskSets := [0]
      tasks := ⟨[(0, judgedTask)], by simp⟩
      endpoints := (smallConfig 1 1 5000000).catalog.endpoints }

def judgedItem : Executable judgedConfig 0 oneItem where
  row := oneItemExecutable.row
  task := judgedTask
  endpoint := oneItemExecutable.endpoint
  load := rfl
  status := oneItemExecutable.status

theorem judgedTask_valid : ValidTask rubricLibraries judgedTask :=
  ⟨⟨some [⟨"accuracy"⟩], rfl⟩, fun _ => ⟨none, rfl, by simp⟩⟩

/-- The completion succeeds at once, and the judge is overloaded. -/
theorem judge_overloaded : ∃ tr m',
    Run (aloneChecked judgedConfig 0) (oneItem, .goto .start) tr
        (m', .done ⟨.item .failed, some .gradingFailed⟩) ∧
      Follows (OnScript (fun _ => answers.completion) fun r g =>
        g = graders rubricLibraries sampleJudge {} judgedTask (fun _ => .retryable "overloaded") r)
        tr ∧
      (m'.db.items.get 0).map RunItem.status = some .failed := by
  obtain ⟨tr, ⟨m', next⟩, hrun, hall, htest⟩ := Lts.exists_run_of_play (aloneChecked judgedConfig 0)
    (oneItem, .goto .start)
    (fun _ c => c.completion == answers.completion && c.grading == .raises "overloaded")
    (List.replicate 11 ⟨answers.completion, .raises "overloaded", 0⟩)
    (fun _ y => y.2 == .done ⟨.item .failed, some .gradingFailed⟩ &&
      (y.1.db.items.get 0).map RunItem.status == some .failed)
    (by decide)
  simp only [Bool.and_eq_true, beq_iff_eq] at hall htest
  obtain ⟨rfl, hstatus⟩ := htest
  refine ⟨tr, m', hrun, ?_, hstatus⟩
  intro a p b hab
  obtain ⟨hcompletion, hgrading⟩ := hall p (by simp [hab])
  unfold OnScript
  split
  · exact hcompletion
  · exact hgrading
  · trivial

end EvalHarness
