/-
# Which items a human is asked to look at (`grade_run_item`)

The module docstring of the pipeline opens a review when the graders disagree, or when the judge's
score falls inside the low-confidence band.  `routing` is that rule.  The code asks it only where
there is a deterministic grade as well, so a task graded by the judge alone never gets a
low-confidence review; `review_routing` says that this is the whole difference, up to a
disagreement threshold that is a NaN and to a rationale the database refuses to store, with which
the commit fails and takes the review along.

`gradeRunItemAlone` is `grade_run_item` as one call with nobody else at work, and
`gradeRunItem_alone` connects it with the steps the worker takes.
-/
import EvalHarness.Grades
import EvalHarness.Refusals

namespace EvalHarness

open Lts (Run)

/-! ## 1. `grade_run_item` in one go -/

def gradesOf (db : Db) (rid : ItemId) : List Grade := db.grades.filter fun g => g.runItemId == rid

def reviewsOf (db : Db) (rid : ItemId) : List ReviewItem :=
  db.reviews.filter fun x => x.runItemId == rid

/-- `grade_run_item` when nobody else writes the rows of the item: the database afterwards, and what
is returned or raised. -/
def gradeRunItemAlone (db : Db) (rid : ItemId) (graders : GradingOutcome) :
    Db × Except String (List NewGrade) :=
  let existing := gradesOf db rid
  if existing ≠ [] then (db, .ok (existing.map (·.toNewGrade)))
  else
    match graders with
    | .raises e => (db, .error e)
    | .graded grades review =>
      let already := reviewsOf db rid ≠ []
      if storableGrades grades then
        (insertGrades db rid grades (if already then none else review), .ok grades)
      else (db, .error notStorable)

/-- Where the worker goes on behind `grade_run_item`. -/
def afterGrading : Except String (List NewGrade) → Pc
  | .ok _ => .maybeComplete ⟨.item .succeeded, none⟩
  | .error e => .markGradingFailed e

theorem any_eq_gradesOf (db : Db) (rid : ItemId) :
    (db.grades.any fun g => g.runItemId == rid) = decide (gradesOf db rid ≠ []) := by
  rw [Bool.eq_iff_iff, List.any_eq_true, decide_eq_true_iff, gradesOf, Ne, List.filter_eq_nil_iff]
  push Not
  rfl

theorem any_eq_reviewsOf (db : Db) (rid : ItemId) :
    (db.reviews.any fun x => x.runItemId == rid) = decide (reviewsOf db rid ≠ []) := by
  rw [Bool.eq_iff_iff, List.any_eq_true, decide_eq_true_iff, reviewsOf, Ne, List.filter_eq_nil_iff]
  push Not
  rfl

/-- **The call is what the worker's steps do.**  Undisturbed, they read, grade, look for a review
and commit as `gradeRunItemAlone` does. -/
theorem gradeRunItem_alone (cfg : Config) (rid : ItemId) (v : Loaded) (r : CompletionResult)
    (m : Backend) (c : Choice) :
    ∃ tr, Run (aloneChecked cfg rid) (m, .goto (.at v (.gradeRead r))) tr
        ({ m with db := (gradeRunItemAlone m.db rid c.grading).1 },
          .goto (.at v (afterGrading (gradeRunItemAlone m.db rid c.grading).2))) ∧
      ∀ x ∈ tr, x.2 = c := by
  by_cases hold : gradesOf m.db rid = []
  · have hread : aloneChecked cfg rid (m, .goto (.at v (.gradeRead r))) c =
        some (m, .goto (.at v (.judge r))) := by
      simp [aloneChecked, executeChecked, refusal, executeRunItem, stepRunItem, any_eq_gradesOf, hold]
    cases hg : c.grading with
    | raises e =>
      have hjudge : aloneChecked cfg rid (m, .goto (.at v (.judge r))) c =
          some (m, .goto (.at v (.markGradingFailed e))) := by
        simp [aloneChecked, executeChecked, refusal, executeRunItem, stepRunItem, hg]
      simp only [gradeRunItemAlone, hold, ne_eq, not_true_eq_false, if_false, afterGrading]
      exact ⟨_, (Run.nil.snoc hread).snoc hjudge, by simp⟩
    | graded grades review =>
      -- what the commit does, whatever the look for a review has made of it
      have hcommit : ∀ review', aloneChecked cfg rid (m, .goto (.at v (.gradeCommit grades review'))) c =
          some (if storableGrades grades then
            ({ m with db := insertGrades m.db rid grades review' },
              .goto (.at v (.maybeComplete ⟨.item .succeeded, none⟩)))
            else (m, .goto (.at v (.markGradingFailed notStorable)))) := fun _ => rfl
      let opened := if ¬ reviewsOf m.db rid = [] then none else review
      have hends : ({ m with db := (gradeRunItemAlone m.db rid (.graded grades review)).1 },
          Next.goto (.at v (afterGrading (gradeRunItemAlone m.db rid (.graded grades review)).2))) =
          if storableGrades grades then
            ({ m with db := insertGrades m.db rid grades opened },
              .goto (.at v (.maybeComplete ⟨.item .succeeded, none⟩)))
            else (m, .goto (.at v (.markGradingFailed notStorable))) := by
        simp only [gradeRunItemAlone, hold, ne_eq, not_true_eq_false, if_false, opened]
        split <;> rfl
      rw [hends]
      cases review with
      | none =>
        have hjudge : aloneChecked cfg rid (m, .goto (.at v (.judge r))) c =
            some (m, .goto (.at v (.gradeCommit grades none))) := by
          simp [aloneChecked, executeChecked, refusal, executeRunItem, stepRunItem, hg]
        simp only [opened, ite_self]
        exact ⟨_, ((Run.nil.snoc hread).snoc hjudge).snoc (hcommit none), by simp⟩
      | some reason =>
        have hjudge : aloneChecked cfg rid (m, .goto (.at v (.judge r))) c =
            some (m, .goto (.at v (.reviewCheck grades reason))) := by
          simp [aloneChecked, executeChecked, refusal, executeRunItem, stepRunItem, hg]
        have hcheck : aloneChecked cfg rid (m, .goto (.at v (.reviewCheck grades reason))) c =
            some (m, .goto (.at v (.gradeCommit grades
              (if ¬ reviewsOf m.db rid = [] then none else some reason)))) := by
          simp only [aloneChecked, executeChecked, refusal, executeRunItem, stepRunItem,
            any_eq_reviewsOf, decide_eq_true_iff]
          split <;> rfl
        exact ⟨_, (((Run.nil.snoc hread).snoc hjudge).snoc hcheck).snoc (hcommit _), by simp⟩
  · have hread : aloneChecked cfg rid (m, .goto (.at v (.gradeRead r))) c =
        some (m, .goto (.at v (.maybeComplete ⟨.item .succeeded, none⟩))) := by
      simp [aloneChecked, executeChecked, refusal, executeRunItem, stepRunItem, any_eq_gradesOf, hold]
    simp only [gradeRunItemAlone, hold, ne_eq, not_false_eq_true, if_true, afterGrading]
    exact ⟨_, Run.nil.snoc hread, by simp⟩

/-! ## 2. The rule and the code -/

/-- The deterministic score, if the task has a deterministic grade. -/
def deterministicScore (lib : Libraries) (task : Task) (output : String) : Option Int :=
  match runDeterministic lib task output with
  | .ok (some g) => some g.score
  | _ => none

/-- The judge's score, if the judge is asked and gives one. -/
def judgeScore (lib : Libraries) (task : Task) (output : String) (judge : JudgeOutcome) :
    Option Int :=
  match runDeterministic lib task output, rubricFromConfig lib task.graderConfig, judge with
  | .ok _, .ok (some _), .verdict v => some (thousandths v.overall.value)
  | _, _, _ => none

/-- What a review is opened for, as the pipeline documents it. -/
def routing (settings : Settings) (deterministic judged : Option Int) : Option ReviewReason :=
  judged.bind fun score =>
    if deterministic.any fun d => settings.disagreementThreshold.lt (scoreFloat |d - score|) then
      some .judgeDisagreement
    else if settings.inBand score then some .lowConfidence
    else none

/-- The review the graders ask for. -/
def GradingOutcome.review? : GradingOutcome → Option ReviewReason
  | .raises _ => none
  | .graded _ review => review

/-- The code asks with both scores in hand only. -/
theorem gradeRunItem_review? (lib : Libraries) (settings : Settings) (task : Task) (output : String)
    (judge : JudgeOutcome) :
    (gradeRunItem lib settings task output judge).review? =
      (deterministicScore lib task output).bind fun d =>
        (judgeScore lib task output judge).bind fun j =>
          (reviewItemForDisagreement settings d j).toOption.join := by
  unfold gradeRunItem deterministicScore judgeScore
  cases runDeterministic lib task output with
  | error e => rfl
  | ok deterministic =>
    cases rubricFromConfig lib task.graderConfig with
    | error e => cases deterministic <;> rfl
    | ok rubric =>
      cases rubric with
      | none => cases deterministic <;> rfl
      | some rubric =>
        cases judge with
        | unparseable e => cases deterministic <;> rfl
        | raises e => cases deterministic <;> rfl
        | verdict v =>
          cases deterministic with
          | none => simp [GradingOutcome.review?]
          | some g =>
            simp only [Option.bind_some]
            cases reviewItemForDisagreement settings g.score (thousandths v.overall.value) <;> rfl

/-- A NaN threshold is above nothing. -/
theorem lt_nan (x : Py.Float) : Py.Float.lt .nan x = false := by cases x <;> rfl

/-- The rule and the code part where the judge's score is in the band and there is nothing, or
nothing orderable, to compare it with. -/
theorem review?_eq_routing_iff (settings : Settings) (deterministic judged : Option Int) :
    (deterministic.bind fun d => judged.bind fun j =>
        (reviewItemForDisagreement settings d j).toOption.join) =
      routing settings deterministic judged ↔
    ∀ j, judged = some j → settings.inBand j = true →
      deterministic ≠ none ∧ settings.disagreementThreshold ≠ .nan := by
  cases judged with
  | none => cases deterministic <;> simp [routing]
  | some j =>
    cases deterministic with
    | none => cases hb : settings.inBand j <;> simp [routing, hb]
    | some d =>
      simp only [routing, Option.bind_some, Option.any_some, reviewItemForDisagreement,
        Option.some.injEq, forall_eq', ne_eq, reduceCtorEq, not_false_eq_true, true_and]
      by_cases hnan : settings.disagreementThreshold = .nan
      · rw [hnan]
        cases hb : settings.inBand j <;> simp [lt_nan, Except.toOption]
      · rw [if_neg hnan]
        by_cases hlt : settings.disagreementThreshold.lt (scoreFloat |d - j|) = true <;>
          cases hb : settings.inBand j <;> simp [hlt, hnan, Except.toOption]

/-- The rationales of both graders can be stored. -/
def storableRationales (lib : Libraries) (task : Task) (output : String) (judge : JudgeOutcome) :
    Bool :=
  (match runDeterministic lib task output with
    | .ok (some g) => storableText g.rationale
    | _ => true) &&
  match judge with
  | .verdict v => storableText v.rationale
  | _ => true

/-- The graders do not raise, and their rows can be stored. -/
def GradingOutcome.commits : GradingOutcome → Bool
  | .raises _ => false
  | .graded grades _ => storableGrades grades

/-- The review the commit of the graders opens, if it is the first. -/
def GradingOutcome.opens : GradingOutcome → Option ReviewReason
  | .raises _ => none
  | .graded grades review => if storableGrades grades then review else none

/-- A review is asked for with a grade of each grader, and opened if both can be stored. -/
theorem gradeRunItem_opens (lib : Libraries) (settings : Settings) (task : Task) (output : String)
    (judge : JudgeOutcome) :
    (gradeRunItem lib settings task output judge).opens =
      if storableRationales lib task output judge then
        (gradeRunItem lib settings task output judge).review? else none := by
  unfold gradeRunItem storableRationales
  cases runDeterministic lib task output with
  | error e => simp [GradingOutcome.opens, GradingOutcome.review?]
  | ok deterministic =>
    cases rubricFromConfig lib task.graderConfig with
    | error e => simp [GradingOutcome.opens, GradingOutcome.review?]
    | ok rubric =>
      cases rubric with
      | none => simp [GradingOutcome.opens, GradingOutcome.review?]
      | some rubric =>
        cases judge with
        | unparseable e => simp [GradingOutcome.opens, GradingOutcome.review?]
        | raises e => simp [GradingOutcome.opens, GradingOutcome.review?]
        | verdict v =>
          cases deterministic with
          | none => simp [GradingOutcome.opens, GradingOutcome.review?]
          | some g =>
            cases hreview : reviewItemForDisagreement settings g.score
                (thousandths v.overall.value) with
            | error e => simp [hreview, GradingOutcome.opens, GradingOutcome.review?]
            | ok review =>
              simp [hreview, GradingOutcome.opens, GradingOutcome.review?, storableGrades,
                DeterministicGrade.toGrade, JudgeVerdict.toGrade]

/-- Where the rule asks for nothing, no score lies in the band. -/
theorem inBand_of_routing {settings : Settings} {deterministic judged : Option Int} {j : Int}
    (h : routing settings deterministic judged = none) (hj : judged = some j) :
    settings.inBand j = false := by
  subst hj
  simp only [routing, Option.bind_some] at h
  split at h
  · cases h
  · split at h
    · cases h
    · rename_i hband
      simpa using hband

/-- **Review routing.**  Grading an item without grades and reviews opens exactly the review the
rule asks for, if and only if a score of the judge inside the low-confidence band comes with a
deterministic score, and with a threshold to compare the two, and where the rule asks for a review
the rationales of the graders can be stored. -/
theorem review_routing (lib : Libraries) (settings : Settings) (task : Task) (output : String)
    (judge : JudgeOutcome) {db : Db} {rid : ItemId} (hgrades : gradesOf db rid = [])
    (hreviews : reviewsOf db rid = []) :
    reviewsOf (gradeRunItemAlone db rid (gradeRunItem lib settings task output judge)).1 rid =
      (routing settings (deterministicScore lib task output)
        (judgeScore lib task output judge)).toList.map (fun reason => { runItemId := rid, reason }) ↔
    (∀ j, judgeScore lib task output judge = some j → settings.inBand j = true →
      deterministicScore lib task output ≠ none ∧ settings.disagreementThreshold ≠ .nan) ∧
    (routing settings (deterministicScore lib task output) (judgeScore lib task output judge) ≠
      none → storableRationales lib task output judge = true) := by
  have hopened : reviewsOf
      (gradeRunItemAlone db rid (gradeRunItem lib settings task output judge)).1 rid =
      (gradeRunItem lib settings task output judge).opens.toList.map
        fun reason => { runItemId := rid, reason } := by
    simp only [gradeRunItemAlone, hgrades, hreviews, ne_eq, not_true_eq_false, if_false]
    cases gradeRunItem lib settings task output judge with
    | raises e => exact hreviews
    | graded grades review =>
      simp only [GradingOutcome.opens]
      split
      · unfold reviewsOf at hreviews
        simp only [reviewsOf, insertGrades, List.filter_append, hreviews]
        cases review <;> simp
      · exact hreviews
  have hsame : ∀ x y : Option ReviewReason,
      x.toList.map (fun reason => ({ runItemId := rid, reason } : ReviewItem)) =
        y.toList.map (fun reason => { runItemId := rid, reason }) ↔ x = y := by
    intro x y
    refine ⟨fun h => ?_, fun h => by rw [h]⟩
    have hreason := congrArg (fun rows => (rows.map ReviewItem.reason).head?) h
    simpa only [List.map_map, Function.comp_def, List.map_id', Option.head?_toList] using hreason
  rw [hopened, hsame, gradeRunItem_opens, ← review?_eq_routing_iff, gradeRunItem_review?]
  cases storableRationales lib task output judge with
  | true => simp
  | false =>
    -- the commit fails: it does what the rule asks for where that is nothing
    simp only [Bool.false_eq_true, if_false, imp_false, not_not]
    refine ⟨fun h => ⟨(review?_eq_routing_iff ..).mpr fun j hj hband => ?_, h.symm⟩,
      fun h => h.2.symm⟩
    rw [inBand_of_routing h.symm hj] at hband
    cases hband

/-- The plain engine, with criteria validated: a name that is not empty, a positive weight. -/
def rubricLibraries : Libraries :=
  { plainLibraries with
    validateCriterion := fun x =>
      match x with
      | .obj fields =>
        match Py.Json.field fields (Py.str "name"), Py.Json.field fields (Py.str "weight") with
        | .str name, .int weight =>
          if name ≠ [] ∧ 0 < weight then .ok ⟨Py.text name⟩ else .error "1 validation error for RubricCriterion"
        | _, _ => .error "1 validation error for RubricCriterion"
      | _ => .error "1 validation error for RubricCriterion" }

/-- A task for the judge, with one criterion. -/
def judgedTask : Task :=
  { taskSetId := 0, prompt := "2 + 2?", capability := "arithmetic", expectedOutput := none,
    graderType := .llmJudge,
    graderConfig := some [(Py.str "rubric",
      .arr [.obj [(Py.str "name", .str (Py.str "accuracy")), (Py.str "weight", .int 1)]])] }

/-- The same task with an expected output beside the rubric. -/
def comparedTask : Task :=
  { judgedTask with graderType := .exactMatch, expectedOutput := some "4" }

/-- The judge is undecided. -/
def undecided : JudgeOutcome :=
  .verdict ⟨[("accuracy", 1 / 2)], .num (1 / 2) (by decide +kernel) (by decide +kernel), "unclear"⟩

/-- Graded by both, the answer of an undecided judge goes to a human. -/
theorem review_routing_compared :
    reviewsOf (gradeRunItemAlone Db.empty 0
        (gradeRunItem rubricLibraries {} comparedTask "4" undecided)).1 0 =
      [{ runItemId := 0, reason := .lowConfidence }] := by
  rw [(review_routing rubricLibraries {} comparedTask "4" undecided rfl rfl).mpr]
  · decide +kernel
  · decide +kernel

/-- Graded by the judge alone, it does not. -/
theorem undecided_not_routed : ¬ ∀ (lib : Libraries) (settings : Settings) (task : Task)
    (output : String) (judge : JudgeOutcome) (db : Db) (rid : ItemId),
    gradesOf db rid = [] → reviewsOf db rid = [] →
      reviewsOf (gradeRunItemAlone db rid (gradeRunItem lib settings task output judge)).1 rid =
        (routing settings (deterministicScore lib task output)
          (judgeScore lib task output judge)).toList.map
            fun reason => { runItemId := rid, reason } := by
  intro hall
  exact absurd (hall rubricLibraries {} judgedTask "4" undecided Db.empty 0 rfl rfl)
    (by decide +kernel)

end EvalHarness
