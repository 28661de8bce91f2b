/-
# Grading is all or nothing (`grade_run_item`)

`gradeRunItemTx` is `grade_run_item` as the source has it, one program over one session: the read
of the existing grades, the graders, the rows added to the session, the look for a review, and the
commit.  The rows are in the session before the review is decided on, so a late exception finds
them there; what saves the database is that the commit comes last.

The rest of the development has the call in one go (`gradeRunItemAlone`, which `gradeRunItem_alone`
connects with the steps of the worker), and `inSession_gradeRunItemTx` says that the two agree.
-/
import EvalHarness.Lib.Tx
import EvalHarness.Transient

namespace EvalHarness

open Tx (Program View exec read write commit lift inSession Uncommitted)

/-! ## 1. The call as a program -/

/-- The judge's part: its rows, and the score to compare. -/
def judgeGrades (rubric : Option (List RubricCriterion)) (judge : JudgeOutcome) :
    Except String (List NewGrade × Option Int) :=
  match rubric, judge with
  | none, _ => .ok ([], none)
  | some _, .raises e => .error e
  | some _, .unparseable e => .ok ([failedJudgeGrade e], none)
  | some _, .verdict v =>
    let judgeScore := thousandths v.overall.value
    .ok ([v.toGrade judgeScore], some judgeScore)

/-- The review that is asked for; both scores have to be there. -/
def reviewItem (settings : Settings) (deterministic : Option DeterministicGrade)
    (judgeScore : Option Int) : Except String (Option ReviewReason) :=
  match deterministic, judgeScore with
  | some g, some j => reviewItemForDisagreement settings g.score j
  | _, _ => .ok none

/-- The rows go to the database, which refuses what it cannot store. -/
def flush (grades : List NewGrade) : Except String Unit :=
  if storableGrades grades then .ok () else .error notStorable

/-- `session.add` of a review, unless the item has one. -/
def addReview (rid : ItemId) : Option ReviewReason → Program Db String Unit
  | none => pure ()
  | some reason => do
    let db ← read
    if reviewsOf db rid ≠ [] then pure () else write fun db => insertGrades db rid [] (some reason)

/-- The rows leave the session with the look for a review, which flushes it, or else with the
commit. -/
def sendRows (rid : ItemId) (grades : List NewGrade) (review : Option ReviewReason) :
    Program Db String (List NewGrade) := do
  lift (flush grades)
  addReview rid review
  return grades

/-- `grade_run_item` between the read of the existing grades and the commit. -/
def gradeNew (lib : Libraries) (settings : Settings) (task : Task) (output : String)
    (judge : JudgeOutcome) (rid : ItemId) : Program Db String (List NewGrade) := do
  let deterministic ← lift (runDeterministic lib task output)
  let rubric ← lift (rubricFromConfig lib task.graderConfig)
  let (judged, judgeScore) ← lift (judgeGrades rubric judge)
  let grades := deterministic.toList.map (·.toGrade) ++ judged
  write fun db => insertGrades db rid grades none
  let review ← lift (reviewItem settings deterministic judgeScore)
  sendRows rid grades review

/-- `grade_run_item`. -/
def gradeRunItemTx (lib : Libraries) (settings : Settings) (task : Task) (output : String)
    (judge : JudgeOutcome) (rid : ItemId) : Program Db String (List NewGrade) := do
  let db ← read
  let existing := gradesOf db rid
  if existing ≠ [] then return existing.map (·.toNewGrade)
  else do
    let grades ← gradeNew lib settings task output judge rid
    commit
    return grades

/-! ## 2. The two forms of the call -/

section Call

variable {lib : Libraries} {settings : Settings} {task : Task} {output : String}
  {judge : JudgeOutcome} {rid : ItemId}

theorem addReview_uncommitted (rid : ItemId) (review : Option ReviewReason) :
    Uncommitted (addReview rid review) := by
  cases review with
  | none => exact Tx.uncommitted_pure ()
  | some reason =>
    refine Tx.uncommitted_read.bind fun db => ?_
    split
    · exact Tx.uncommitted_pure ()
    · exact Tx.uncommitted_write _

theorem sendRows_uncommitted (rid : ItemId) (grades : List NewGrade)
    (review : Option ReviewReason) : Uncommitted (sendRows rid grades review) :=
  (Tx.uncommitted_lift _).bind fun _ => (addReview_uncommitted rid _).bind fun _ =>
    Tx.uncommitted_pure _

theorem gradeNew_uncommitted :
    Uncommitted (gradeNew lib settings task output judge rid) :=
  (Tx.uncommitted_lift _).bind fun _ => (Tx.uncommitted_lift _).bind fun _ =>
    (Tx.uncommitted_lift _).bind fun _ => (Tx.uncommitted_write _).bind fun _ =>
      (Tx.uncommitted_lift _).bind fun _ => sendRows_uncommitted rid _ _

/-- The rows go in together or one after the other. -/
theorem insertGrades_review (db : Db) (rid : ItemId) (grades : List NewGrade)
    (review : Option ReviewReason) :
    insertGrades (insertGrades db rid grades none) rid [] review =
      insertGrades db rid grades review := by
  simp [insertGrades]

theorem reviewsOf_insertGrades_none (db : Db) (rid : ItemId) (grades : List NewGrade) :
    reviewsOf (insertGrades db rid grades none) rid = reviewsOf db rid := by
  simp [reviewsOf, insertGrades]

/-- What a review does to a view that holds the grades already. -/
theorem exec_addReview (db : Db) (rid : ItemId) (grades : List NewGrade)
    (review : Option ReviewReason) :
    exec (addReview rid review) ⟨db, insertGrades db rid grades none⟩ =
      (.ok (), ⟨db, insertGrades db rid grades
        (if reviewsOf db rid ≠ [] then none else review)⟩) := by
  cases review with
  | none => simp [addReview]
  | some reason =>
    simp only [addReview, Tx.exec_bind, Tx.exec_read, reviewsOf_insertGrades_none]
    split
    · rfl
    · rw [Tx.exec_write, insertGrades_review]

theorem exec_sendRows (db : Db) (rid : ItemId) (grades : List NewGrade)
    (review : Option ReviewReason) :
    exec (sendRows rid grades review) ⟨db, insertGrades db rid grades none⟩ =
      if storableGrades grades then
        (.ok grades, ⟨db, insertGrades db rid grades
          (if reviewsOf db rid ≠ [] then none else review)⟩)
      else (.error notStorable, ⟨db, insertGrades db rid grades none⟩) := by
  cases hgs : storableGrades grades <;> simp [sendRows, flush, hgs, exec_addReview]

/-- **The program ends as the graders do**: it raises what they raise, or holds their rows, if these
can be stored. -/
theorem exec_gradeNew (lib : Libraries) (settings : Settings) (task : Task) (output : String)
    (judge : JudgeOutcome) (rid : ItemId) (db : Db) :
    match gradeRunItem lib settings task output judge with
    | .raises e => (exec (gradeNew lib settings task output judge rid) ⟨db, db⟩).1 = .error e
    | .graded grades review =>
      exec (gradeNew lib settings task output judge rid) ⟨db, db⟩ =
        if storableGrades grades then
          (.ok grades, ⟨db, insertGrades db rid grades
            (if reviewsOf db rid ≠ [] then none else review)⟩)
        else (.error notStorable, ⟨db, insertGrades db rid grades none⟩) := by
  unfold gradeRunItem gradeNew
  cases hd : runDeterministic lib task output with
  | error e => simp
  | ok deterministic =>
    cases hr : rubricFromConfig lib task.graderConfig with
    | error e => simp
    | ok rubric =>
      cases rubric with
      | none =>
        cases deterministic <;> simp [judgeGrades, reviewItem, exec_sendRows]
      | some rubric =>
        cases judge with
        | raises e => simp [judgeGrades]
        | unparseable e =>
          cases deterministic <;> simp [judgeGrades, reviewItem, exec_sendRows]
        | verdict v =>
          cases deterministic with
          | none => simp [judgeGrades, reviewItem, exec_sendRows]
          | some g =>
            cases hreview : reviewItemForDisagreement settings g.score
                (thousandths v.overall.value) with
            | error e => simp [judgeGrades, reviewItem, hreview]
            | ok review => simp [judgeGrades, reviewItem, hreview, exec_sendRows]

/-- **One session is one call.** -/
theorem inSession_gradeRunItemTx (db : Db) :
    inSession (gradeRunItemTx lib settings task output judge rid) db =
      gradeRunItemAlone db rid (gradeRunItem lib settings task output judge) := by
  unfold gradeRunItemAlone
  by_cases hold : gradesOf db rid = []
  · have hcommit : inSession (gradeRunItemTx lib settings task output judge rid) db =
        inSession (do
          let grades ← gradeNew lib settings task output judge rid
          commit
          return grades) db := by
      simp [inSession, gradeRunItemTx, hold]
    rw [hcommit, Tx.inSession_commit gradeNew_uncommitted]
    simp only [hold, ne_eq, not_true_eq_false, if_false]
    have hexec := exec_gradeNew lib settings task output judge rid db
    cases hg : gradeRunItem lib settings task output judge with
    | raises e =>
      rw [hg] at hexec
      cases h : exec (gradeNew lib settings task output judge rid) ⟨db, db⟩ with
      | mk r v =>
        obtain rfl : r = .error e := by simpa [h] using hexec
        rfl
    | graded grades review =>
      rw [hg] at hexec
      rw [show exec (gradeNew lib settings task output judge rid) ⟨db, db⟩ = _ from hexec]
      cases hgs : storableGrades grades <;> simp [hgs]
  · simp [inSession, gradeRunItemTx, hold]

end Call

/-! ## 3. What one call leaves -/

/-- The rows of a first grading: the deterministic grade if there is one, the judge's if there is a
rubric, and at most one review. -/
def NewRows (libraries : Libraries) (task : Task) (output : String) (rid : ItemId) (db db' : Db) :
    Prop :=
  ∃ deterministic rubric judged review, runDeterministic libraries task output = .ok deterministic ∧
    rubricFromConfig libraries task.graderConfig = .ok rubric ∧
    judged.map (·.grader) = rubric.toList.map (fun _ => GraderKind.llmJudge) ∧
    db' = insertGrades db rid (deterministic.toList.map (·.toGrade) ++ judged) review

/-- An item with grades is not graded again. -/
theorem inSession_of_graded {lib : Libraries} {settings : Settings} {task : Task} {output : String}
    {judge : JudgeOutcome} {rid : ItemId} {db : Db} (h : gradesOf db rid ≠ []) :
    inSession (gradeRunItemTx lib settings task output judge rid) db =
      (db, .ok ((gradesOf db rid).map (·.toNewGrade))) := by
  rw [inSession_gradeRunItemTx]
  simp [gradeRunItemAlone, h]

/-- Grades that were added are grades of the item. -/
theorem gradesOf_insertGrades_ne_nil {db : Db} {rid : ItemId} {grades : List NewGrade}
    {review : Option ReviewReason} (h : (insertGrades db rid grades review).grades ≠ db.grades) :
    gradesOf (insertGrades db rid grades review) rid ≠ [] := by
  cases grades with
  | nil => exact absurd (by simp [insertGrades]) h
  | cons g grades => simp [gradesOf, insertGrades]

/-- **All or nothing.**  A call that raises changes nothing.  One that returns found grades and
changed nothing, or added exactly the rows of a first grading.  After a call that added a grade no
further call adds anything. -/
theorem grading_all_or_nothing (libraries : Libraries) (lib : JudgeLibraries) (settings : Settings)
    (task : Task) (output : String) (answer : Nat → JudgeAnswer) (rid : ItemId) (db : Db) :
    let after := inSession (gradeRunItemTx libraries settings task output
      (judgeOutcome lib (rubricOf libraries task) answer) rid) db
    (∀ e, after.2 = .error e → after.1 = db) ∧
      (∀ grades, after.2 = .ok grades → gradesOf db rid ≠ [] ∧ after.1 = db ∨
        gradesOf db rid = [] ∧ NewRows libraries task output rid db after.1) ∧
      (after.1.grades ≠ db.grades → ∀ settings' task' output' judge',
        (inSession (gradeRunItemTx libraries settings' task' output' judge' rid) after.1).1 =
          after.1) := by
  intro after
  by_cases hold : gradesOf db rid = []
  · cases hg : gradeRunItem libraries settings task output
        (judgeOutcome lib (rubricOf libraries task) answer) with
    | raises e =>
      have hafter : after = (db, .error e) := by
        simp [after, inSession_gradeRunItemTx, gradeRunItemAlone, hold, hg]
      rw [hafter]
      exact ⟨fun _ _ => rfl, fun _ h => (by cases h), fun h => absurd rfl h⟩
    | graded grades review =>
      obtain ⟨deterministic, rubric, hd, hr, -, judged, rfl, hjudged⟩ := gradeRunItem_graded hg
      by_cases hgs : storableGrades (deterministic.toList.map (·.toGrade) ++ judged) = true
      · have hafter : after = (insertGrades db rid (deterministic.toList.map (·.toGrade) ++ judged)
            (if reviewsOf db rid ≠ [] then none else review),
              .ok (deterministic.toList.map (·.toGrade) ++ judged)) := by
          simp only [after, inSession_gradeRunItemTx, gradeRunItemAlone, hold, hg, hgs, ne_eq,
            not_true_eq_false, if_false, if_true]
        rw [hafter]
        refine ⟨fun _ h => (by cases h), fun _ _ => .inr ⟨hold, ?_⟩, fun h _ _ _ _ => ?_⟩
        · exact ⟨deterministic, rubric, judged, _, hd, hr, hjudged, rfl⟩
        · rw [inSession_of_graded (gradesOf_insertGrades_ne_nil h)]
      · have hafter : after = (db, .error notStorable) := by
          simp only [after, inSession_gradeRunItemTx, gradeRunItemAlone, hold, hg, hgs, ne_eq,
            not_true_eq_false, if_false]
          rfl
        rw [hafter]
        exact ⟨fun _ _ => rfl, fun _ h => (by cases h), fun h => absurd rfl h⟩
  · have hafter : after = (db, .ok ((gradesOf db rid).map (·.toNewGrade))) :=
      inSession_of_graded hold
    rw [hafter]
    exact ⟨fun _ h => (by cases h), fun _ _ => .inl ⟨hold, rfl⟩, fun h => absurd rfl h⟩

/-- The judge is overloaded, and nothing is written; it answers, and the grade stays the only
one. -/
theorem grading_all_or_nothing_judged :
    (inSession (gradeRunItemTx rubricLibraries {} comparedTask "4"
      (judgeOutcome sampleJudge (rubricOf rubricLibraries comparedTask)
        fun _ => .retryable "overloaded") 0) Db.empty).1 = Db.empty ∧
    ∀ settings task output judge, ∃ db, db.grades.length = 2 ∧
      (inSession (gradeRunItemTx rubricLibraries settings task output judge 0) db).1 = db := by
  refine ⟨(grading_all_or_nothing rubricLibraries sampleJudge {} comparedTask "4"
    (fun _ => .retryable "overloaded") 0 Db.empty).1 "overloaded" rfl, ?_⟩
  intro settings task output judge
  obtain ⟨-, -, hagain⟩ := grading_all_or_nothing rubricLibraries sampleJudge {} comparedTask "4"
    (fun _ => .text (judgeAnswer (.int 1))) 0 Db.empty
  have htwo : (inSession (gradeRunItemTx rubricLibraries {} comparedTask "4"
      (judgeOutcome sampleJudge (rubricOf rubricLibraries comparedTask)
        fun _ => .text (judgeAnswer (.int 1))) 0) Db.empty).1.grades.length = 2 := by
    decide +kernel
  refine ⟨_, htwo, hagain (fun h => ?_) settings task output judge⟩
  rw [h] at htwo
  cases htwo

end EvalHarness
