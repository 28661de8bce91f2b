/-
# The judge's answers (`app/graders/llm_judge.py`)

`grade` asks the judge at most twice and ends with a verdict or with a `JudgeParseError`, which
`grade_run_item` turns into a grade without a score.  `judge_total` says for which answers it does
end so.  Two things get past its two handlers: what `json.loads` raises besides a `JSONDecodeError`,
such as the `ValueError` of an integer with too many digits, and a text the database refuses to
store.

What a task holds has been stored before, so only the judge's own texts can be refused.
-/
import EvalHarness.Extract
import EvalHarness.Routing

namespace EvalHarness

open Py (Str str strip)
open Py.Json (loads)

/-! ## 1. `JudgeVerdict` -/

/-- What `llm_judge` takes from its libraries. -/
structure JudgeLibraries extends JsonLibrary where
  /-- pydantic's `float` of a JSON value; `none` is an error of the field. -/
  toFloat : Py.Json → Option Py.Float
  toStr : Py.Json → Option Str
  /-- The text of the `ValidationError` for a value. -/
  validationError : Py.Json → Str
  /-- The decimal `str` shows of a finite `float`. -/
  shown : Rat → Rat
  shown_mem : ∀ x, 0 ≤ x → x ≤ 1 → 0 ≤ shown x ∧ shown x ≤ 1
  /-- `repr` of a list of names. -/
  reprNames : List Str → Str
  /-- `str` of an exception no handler of the judge takes. -/
  describe : Py.Exc → String

/-- A validated verdict, its texts as Python holds them. -/
structure Verdict where
  rubricScores : List (Str × Rat)
  overall : UnitFloat
  rationale : Str
  deriving DecidableEq

/-- `Field(ge=0.0, le=1.0)`.  A NaN compares as neither and is turned away. -/
def unitFloat (lib : JudgeLibraries) : Py.Float → Option UnitFloat
  | .num x =>
    if h : 0 ≤ x ∧ x ≤ 1 then
      some (.num (lib.shown x) (lib.shown_mem x h.1 h.2).1 (lib.shown_mem x h.1 h.2).2)
    else none
  | .inf _ | .nan => none

/-- A score `_validate_scores` lets through: `0.0 <= score <= 1.0`. -/
def rubricScore : Py.Float → Option Rat
  | .num x => if 0 ≤ x ∧ x ≤ 1 then some x else none
  | .inf _ | .nan => none

def rubricScores (lib : JudgeLibraries) : Py.Json → Option (List (Str × Rat))
  | .obj fields => fields.mapM fun f => do
      return (← lib.toStr (.str f.1), ← rubricScore (← lib.toFloat f.2))
  | _ => none

/-- The fields of a verdict, each validated; further fields are ignored. -/
def verdictOfFields (lib : JudgeLibraries) (fields : List (Str × Py.Json)) : Option Verdict := do
  let scores ← rubricScores lib (← fields.lookup (str "rubric_scores"))
  let overall ← unitFloat lib (← lib.toFloat (← fields.lookup (str "overall")))
  let rationale ← lib.toStr (← fields.lookup (str "rationale"))
  return { rubricScores := scores, overall, rationale }

/-- `JudgeVerdict.model_validate`. -/
def modelValidate (lib : JudgeLibraries) (data : Py.Json) : Except JudgeExc Verdict :=
  match data with
  | .obj fields =>
    match verdictOfFields lib fields with
    | some v => .ok v
    | none => .error (.validation (lib.validationError data))
  | _ => .error (.validation (lib.validationError data))

/-- `sorted(a - b)`. -/
def sortedDiff (a b : List Str) : List Str :=
  ((a.filter fun k => !b.contains k).dedup).mergeSort fun k k' => decide (k ≤ k')

/-- `_validate_rubric_keys`. -/
def validateRubricKeys (lib : JudgeLibraries) (verdict : Verdict) (rubric : List RubricCriterion) :
    Except JudgeExc Unit :=
  let expected := rubric.map fun c => str c.name
  let actual := verdict.rubricScores.map (·.1)
  if (∀ k ∈ actual, k ∈ expected) ∧ ∀ k ∈ expected, k ∈ actual then .ok ()
  else
    .error (.parse (str "rubric_scores keys mismatch: missing=" ++
      lib.reprNames (sortedDiff expected actual) ++ str ", extra=" ++
      lib.reprNames (sortedDiff actual expected)))

/-! ## 2. `grade` -/

/-- How a call of the judge's provider ends. -/
inductive JudgeAnswer
  | text (s : Str)
  | retryable (error : String)
  | nonRetryable (error : String)
  deriving DecidableEq

/-- What `grade` raises. -/
inductive GradeExc
  /-- `JudgeParseError`. -/
  | parse (text : Str)
  | other (e : Py.Exc)
  /-- A provider error, retryable or not. -/
  | provider (retryable : Bool) (error : String)
  deriving DecidableEq

/-- The body of the `try`: a verdict that fits the rubric. -/
def readVerdict (lib : JudgeLibraries) (rubric : List RubricCriterion) (text : Str) :
    Except JudgeExc Verdict := do
  let data ← extractJson lib.toJsonLibrary text
  let verdict ← modelValidate lib data
  validateRubricKeys lib verdict rubric
  return verdict

/-- The loop of `grade` over its attempts, `lastError` being the text of the last one caught: how
often the provider was called, and what is returned or raised. -/
def gradeLoop (lib : JudgeLibraries) (rubric : List RubricCriterion) (answer : Nat → JudgeAnswer) :
    List Nat → Str → Nat × Except GradeExc Verdict
  | [], lastError =>
    (0, .error (.parse (str "judge verdict unparseable after 2 attempts: " ++ lastError)))
  | attempt :: attempts, _ =>
    match answer attempt with
    | .retryable e => (1, .error (.provider true e))
    | .nonRetryable e => (1, .error (.provider false e))
    | .text s =>
      match readVerdict lib rubric s with
      | .ok v => (1, .ok v)
      | .error (.other e) => (1, .error (.other e))
      | .error (.parse e) | .error (.validation e) =>
        let (calls, result) := gradeLoop lib rubric answer attempts e
        (calls + 1, result)

/-- `grade`. -/
def grade (lib : JudgeLibraries) (rubric : List RubricCriterion) (answer : Nat → JudgeAnswer) :
    Nat × Except GradeExc Verdict :=
  gradeLoop lib rubric answer [1, 2] (str "None")

/-! ## 3. The judge inside `grade_run_item` -/

/-- A text Postgres stores: Unicode without surrogates, and no NUL. -/
def storable (s : Str) : Bool :=
  s.all fun c => decide (0 < c ∧ (c < 0xd800 ∨ 0xdfff < c) ∧ c < 0x110000)

/-- The verdict whose row is added to the session. -/
def Verdict.toStored (v : Verdict) : JudgeVerdict :=
  ⟨v.rubricScores.map fun x => (Py.text x.1, x.2), v.overall, Py.text v.rationale⟩

/-- The judge's part of `grade_run_item`, without the commit. -/
def judgeOutcome (lib : JudgeLibraries) (rubric : List RubricCriterion)
    (answer : Nat → JudgeAnswer) : JudgeOutcome :=
  match (grade lib rubric answer).2 with
  | .ok v => .verdict v.toStored
  | .error (.parse e) => .unparseable (Py.text e)
  | .error (.other e) => .raises (lib.describe e)
  | .error (.provider _ e) => .raises e

/-- A surrogate, which no encoder takes to the database, is refused like a U+0000. -/
theorem storableText_text (s : Str) : storableText (Py.text s) = storable s := by
  rw [storableText, Py.text, String.toList_ofList, List.all_map, storable]
  refine congrArg s.all (funext fun c => ?_)
  by_cases hvalid : c.isValidChar
  · have hc : (Char.ofNat c).toNat = c := by rw [Char.ofNat, dif_pos hvalid]; rfl
    have hrange : c < 0xd800 ∨ 0xdfff < c ∧ c < 0x110000 := hvalid
    rw [Function.comp_apply, hc, Bool.eq_iff_iff, bne_iff_ne, decide_eq_true_iff]
    omega
  · have hc : Char.ofNat c = '\x00' := by rw [Char.ofNat, dif_neg hvalid]; rfl
    have hrange : ¬ (c < 0xd800 ∨ 0xdfff < c ∧ c < 0x110000) := hvalid
    have hno : ¬ (0 < c ∧ (c < 0xd800 ∨ 0xdfff < c) ∧ c < 0x110000) := by omega
    rw [Function.comp_apply, hc, decide_eq_false hno]
    decide

/-- The text around the failure is always stored. -/
theorem storableText_failedJudgeGrade (e : String) :
    storableText (failedJudgeGrade e).rationale = storableText e := by
  have hfront : ("judge parse failure: ".toList.all fun c => c.toNat != 0) = true := by decide
  have htext : (failedJudgeGrade e).rationale = "judge parse failure: " ++ e := rfl
  rw [htext, storableText, String.toList_append, List.all_append, hfront, Bool.true_and, storableText]

/-! ## 4. How two texts are read -/

/-- The text of an exception the loop catches. -/
def JudgeExc.text : JudgeExc → Str
  | .parse t | .validation t => t
  | .other _ => []

section Reading

variable {lib : JudgeLibraries} {rubric : List RubricCriterion} {text first second : Str}

/-- `json.loads` of a document raises nothing but a `JSONDecodeError`. -/
def Decodes (codec : Py.Codec) (doc : Str) : Prop :=
  ∀ e, loads codec doc = .error e → e = .jsonDecodeError

/-- The same of the documents `extract_json` parses: what the fence holds or else the whole text,
and when that is no JSON, what stands between its outermost braces. -/
def Readable (lib : JsonLibrary) (text : Str) : Prop :=
  let doc := (fenced (strip text)).getD (strip text)
  Decodes lib.codec doc ∧
    (loads lib.codec doc = .error .jsonDecodeError → ∀ t, braces doc = some t → Decodes lib.codec t)

/-- The verdict of a text, if it is accepted. -/
def accepted (lib : JudgeLibraries) (rubric : List RubricCriterion) (text : Str) : Option Verdict :=
  (readVerdict lib rubric text).toOption

/-- The verdict of two answers: the first one that is accepted. -/
def verdictOf (lib : JudgeLibraries) (rubric : List RubricCriterion) (first second : Str) :
    Option Verdict :=
  (accepted lib rubric first).or (accepted lib rubric second)

/-- The text of the `JudgeParseError` when the second answer is not accepted either. -/
def failureText (lib : JudgeLibraries) (rubric : List RubricCriterion) (second : Str) : Str :=
  str "judge verdict unparseable after 2 attempts: " ++
    match readVerdict lib rubric second with
    | .ok _ => []
    | .error e => e.text

/-- The provider returns these texts. -/
def answers2 (first second : Str) (attempt : Nat) : JudgeAnswer :=
  .text (if attempt = 1 then first else second)

theorem readable_iff {lib : JsonLibrary} :
    Readable lib text ↔ ∀ e, extractJson lib text ≠ .error (.other e) := by
  simp only [Readable, extractJson, extractFrom]
  generalize (fenced (strip text)).getD (strip text) = doc
  cases hdoc : loads lib.codec doc with
  | ok v => simp [Decodes, hdoc]
  | error e =>
    by_cases he : e = .jsonDecodeError
    · subst he
      cases hbraces : braces doc with
      | none => simp [Decodes, hdoc]
      | some t =>
        cases ht : loads lib.codec t with
        | ok v => simp [Decodes, hdoc, ht]
        | error e' => cases e' <;> simp [Decodes, hdoc, ht]
    · cases e <;> simp [Decodes, hdoc] at he ⊢

theorem readVerdict_other {e : Py.Exc} :
    readVerdict lib rubric text = .error (.other e) ↔
      extractJson lib.toJsonLibrary text = .error (.other e) := by
  unfold readVerdict
  cases extractJson lib.toJsonLibrary text with
  | error e' => simp [bind, Except.bind]
  | ok data =>
    have hno : ∀ x, modelValidate lib data ≠ .error (.other x) := by
      intro x
      unfold modelValidate
      split
      · split <;> simp
      · simp
    cases hv : modelValidate lib data with
    | error e' =>
      have hne : e' ≠ .other e := fun h => hno e (h ▸ hv)
      simp [bind, Except.bind, hv, hne]
    | ok v =>
      have hkeys : validateRubricKeys lib v rubric ≠ .error (.other e) := by
        unfold validateRubricKeys
        dsimp only
        split <;> simp
      cases hk : validateRubricKeys lib v rubric with
      | error e' =>
        have hne : e' ≠ .other e := fun h => hkeys (h ▸ hk)
        simp [bind, Except.bind, hv, hk, hne]
      | ok u => simp [bind, Except.bind, hv, hk, pure, Except.pure]

/-- **The three ways a text is read**: accepted, refused with an exception the loop catches, or not
readable at all. -/
theorem readVerdict_cases (lib : JudgeLibraries) (rubric : List RubricCriterion) (text : Str) :
    (∃ v, readVerdict lib rubric text = .ok v ∧ accepted lib rubric text = some v ∧
      Readable lib.toJsonLibrary text) ∨
    (∃ e, readVerdict lib rubric text = .error e ∧ (∀ x, e ≠ .other x) ∧
      accepted lib rubric text = none ∧ Readable lib.toJsonLibrary text) ∨
    (∃ x, readVerdict lib rubric text = .error (.other x) ∧ accepted lib rubric text = none ∧
      ¬ Readable lib.toJsonLibrary text) := by
  have hread : Readable lib.toJsonLibrary text ↔
      ∀ x, readVerdict lib rubric text ≠ .error (.other x) := by
    simp only [readable_iff, ne_eq, readVerdict_other]
  unfold accepted
  cases h : readVerdict lib rubric text with
  | ok v => exact .inl ⟨v, rfl, rfl, hread.mpr (by simp [h])⟩
  | error e =>
    cases e with
    | other x => exact .inr (.inr ⟨x, rfl, rfl, fun hr => hread.mp hr x h⟩)
    | parse t => exact .inr (.inl ⟨.parse t, rfl, by simp, rfl, hread.mpr (by simp [h])⟩)
    | validation t => exact .inr (.inl ⟨.validation t, rfl, by simp, rfl, hread.mpr (by simp [h])⟩)

/-- The texts are read without an exception that escapes. -/
structure AnswersRead (lib : JudgeLibraries) (rubric : List RubricCriterion) (first second : Str) :
    Prop where
  reads : Readable lib.toJsonLibrary first
  rereads : accepted lib rubric first = none → Readable lib.toJsonLibrary second

/-- What `grade_run_item` is told about such answers. -/
def readOutcome (lib : JudgeLibraries) (rubric : List RubricCriterion) (first second : Str) :
    JudgeOutcome :=
  match verdictOf lib rubric first second with
  | some v => .verdict v.toStored
  | none => .unparseable (Py.text (failureText lib rubric second))

theorem grade_first {v : Verdict} (h : readVerdict lib rubric first = .ok v) :
    (grade lib rubric (answers2 first second)).2 = .ok v := by
  simp [grade, gradeLoop, answers2, h]

theorem grade_escapes {x : Py.Exc} (h : readVerdict lib rubric first = .error (.other x)) :
    (grade lib rubric (answers2 first second)).2 = .error (.other x) := by
  simp [grade, gradeLoop, answers2, h]

/-- A first answer the loop refuses leaves the outcome to the second. -/
theorem grade_second {e : JudgeExc} (h : readVerdict lib rubric first = .error e)
    (he : ∀ x, e ≠ .other x) :
    (grade lib rubric (answers2 first second)).2 =
      match readVerdict lib rubric second with
      | .ok v => .ok v
      | .error (.other x) => .error (.other x)
      | .error _ => .error (.parse (failureText lib rubric second)) := by
  have hgrade : (grade lib rubric (answers2 first second)).2 =
      (gradeLoop lib rubric (answers2 first second) [2] e.text).2 := by
    cases e with
    | other x => exact absurd rfl (he x)
    | parse t => simp [grade, gradeLoop, answers2, h]
    | validation t => simp [grade, gradeLoop, answers2, h]
  rw [hgrade]
  cases hs : readVerdict lib rubric second with
  | ok v => simp [gradeLoop, answers2, hs]
  | error e' => cases e' <;> simp [gradeLoop, answers2, hs, failureText, JudgeExc.text]

theorem judgeOutcome_of_read (h : AnswersRead lib rubric first second) :
    judgeOutcome lib rubric (answers2 first second) = readOutcome lib rubric first second := by
  obtain ⟨hfirst, hsecond⟩ := h
  unfold judgeOutcome readOutcome
  obtain ⟨v, hv, hacc, -⟩ | ⟨e, he, hcaught, hacc, -⟩ | ⟨x, -, -, hno⟩ :=
    readVerdict_cases lib rubric first
  · have hof : verdictOf lib rubric first second = some v := by simp [verdictOf, hacc]
    simp [grade_first hv, hof]
  · rw [grade_second he hcaught]
    obtain ⟨v, hv, hacc', -⟩ | ⟨e', he', hcaught', hacc', -⟩ | ⟨x, -, -, hno⟩ :=
      readVerdict_cases lib rubric second
    · have hof : verdictOf lib rubric first second = some v := by simp [verdictOf, hacc, hacc']
      simp [hv, hof]
    · have hof : verdictOf lib rubric first second = none := by simp [verdictOf, hacc, hacc']
      rw [he', hof]
      cases e' with
      | other x => exact absurd rfl (hcaught' x)
      | parse t => rfl
      | validation t => rfl
    · exact absurd (hsecond hacc) hno
  · exact absurd hfirst hno

theorem judgeOutcome_raises (h : ¬ AnswersRead lib rubric first second) :
    ∃ e, judgeOutcome lib rubric (answers2 first second) = .raises e := by
  unfold judgeOutcome
  obtain ⟨v, -, hacc, hr⟩ | ⟨e, he, hcaught, hacc, hr⟩ | ⟨x, hx, -, -⟩ :=
    readVerdict_cases lib rubric first
  · exact absurd ⟨hr, by simp [hacc]⟩ h
  · rw [grade_second he hcaught]
    obtain ⟨v, -, -, hr'⟩ | ⟨e', -, -, -, hr'⟩ | ⟨x, hx, -, -⟩ := readVerdict_cases lib rubric second
    · exact absurd ⟨hr, fun _ => hr'⟩ h
    · exact absurd ⟨hr, fun _ => hr'⟩ h
    · exact ⟨_, by simp [hx]; rfl⟩
  · exact ⟨_, by simp [grade_escapes hx]; rfl⟩

/-- There is never a third call. -/
theorem grade_calls (lib : JudgeLibraries) (rubric : List RubricCriterion)
    (answer : Nat → JudgeAnswer) : (grade lib rubric answer).1 ≤ 2 := by
  have hle : ∀ attempts last, (gradeLoop lib rubric answer attempts last).1 ≤ attempts.length := by
    intro attempts
    induction attempts with
    | nil => intro last; exact le_rfl
    | cons attempt attempts ih =>
      intro last
      unfold gradeLoop
      split
      · simp
      · simp
      · split
        · simp
        · simp
        · simpa using ih _
        · simpa using ih _
  exact hle [1, 2] _

end Reading

/-! ## 5. When the judge's outcome is total -/

/-- The grade a verdict leads to: its overall score in thousandths, or no score without one. -/
def IsJudgeGrade (g : Grade) : Option Verdict → Prop
  | some v => ∃ score, v.overall.score = .milli score ∧ g.score = some score ∧
      0 ≤ score ∧ score ≤ 1000 ∧ g.passed = some (decide (500 ≤ score))
  | none => g.score = none ∧ g.passed = none

/-- `grade_run_item` returns, with at most two calls of the provider, and the item has one grade of
the judge, the one of the first verdict that was accepted. -/
structure CommitsJudgeGrade (libraries : Libraries) (lib : JudgeLibraries) (settings : Settings)
    (task : Task) (output : String) (rubric : List RubricCriterion) (first second : Str)
    (db : Db) (rid : ItemId) : Prop where
  calls : (grade lib rubric (answers2 first second)).1 ≤ 2
  returns : ∃ grades, (gradeRunItemAlone db rid (gradeRunItem libraries settings task output
    (judgeOutcome lib rubric (answers2 first second)))).2 = .ok grades
  commits : ∃ g, ((gradesOf (gradeRunItemAlone db rid (gradeRunItem libraries settings task output
      (judgeOutcome lib rubric (answers2 first second)))).1 rid).filter
        fun g => g.grader == .llmJudge) = [g] ∧
    IsJudgeGrade g (verdictOf lib rubric first second)

/-- Nothing on the way to the commit raises what the pipeline does not handle, and the commit can
store what there is. -/
structure Handled (libraries : Libraries) (lib : JudgeLibraries) (settings : Settings)
    (task : Task) (output : String) (rubric : List RubricCriterion) (first second : Str) :
    Prop where
  answered : AnswersRead lib rubric first second
  verdict : ∀ v, verdictOf lib rubric first second = some v → storable v.rationale = true
  failure : verdictOf lib rubric first second = none →
    storable (failureText lib rubric second) = true
  deterministic : ∃ d, runDeterministic libraries task output = .ok d ∧
    (∀ g, d = some g → storableText g.rationale = true) ∧
    (d ≠ none → verdictOf lib rubric first second ≠ none → settings.disagreementThreshold ≠ .nan)

section Total

variable {libraries : Libraries} {lib : JudgeLibraries} {settings : Settings} {task : Task}
  {output : String} {rubric : List RubricCriterion} {first second : Str}

theorem gradeRunItemAlone_graded {db : Db} {rid : ItemId} (hfresh : gradesOf db rid = [])
    {grades : List NewGrade} (hgs : storableGrades grades = true) (review : Option ReviewReason) :
    (gradeRunItemAlone db rid (.graded grades review)).2 = .ok grades ∧
      gradesOf (gradeRunItemAlone db rid (.graded grades review)).1 rid =
        grades.map fun g => { toNewGrade := g, runItemId := rid } := by
  simp only [gradeRunItemAlone, hfresh, hgs, ne_eq, not_true_eq_false, if_false, if_true, true_and]
  rw [gradesOf, insertGrades, List.filter_append]
  unfold gradesOf at hfresh
  rw [hfresh, List.nil_append, List.filter_eq_self]
  simp

theorem gradeRunItemAlone_error {db : Db} {rid : ItemId} (hfresh : gradesOf db rid = [])
    {graders : GradingOutcome} (h : graders.commits = false) :
    ∃ e, gradeRunItemAlone db rid graders = (db, .error e) := by
  cases graders with
  | raises e => exact ⟨e, by simp [gradeRunItemAlone, hfresh]⟩
  | graded grades review =>
    have hgs : storableGrades grades = false := h
    exact ⟨notStorable, by simp [gradeRunItemAlone, hfresh, hgs]⟩

theorem reviewItemForDisagreement_ok (h : settings.disagreementThreshold ≠ .nan) (d j : Int) :
    ∃ review, reviewItemForDisagreement settings d j = .ok review := by
  simp only [reviewItemForDisagreement, if_neg h]
  split
  · exact ⟨_, rfl⟩
  · split <;> exact ⟨_, rfl⟩

/-- The grade of a judge that has been read. -/
def judgedGrade (lib : JudgeLibraries) (rubric : List RubricCriterion) (first second : Str) :
    NewGrade :=
  match verdictOf lib rubric first second with
  | some v => v.toStored.toGrade (thousandths v.overall.value)
  | none => failedJudgeGrade (Py.text (failureText lib rubric second))

theorem isJudgeGrade_judgedGrade (rid : ItemId) :
    IsJudgeGrade { toNewGrade := judgedGrade lib rubric first second, runItemId := rid }
      (verdictOf lib rubric first second) := by
  unfold judgedGrade
  cases verdictOf lib rubric first second with
  | none => exact ⟨rfl, rfl⟩
  | some v =>
    obtain ⟨h0, h1⟩ := v.overall.score_inUnit
    exact ⟨thousandths v.overall.value, rfl, rfl, h0, h1, rfl⟩

theorem judgedGrade_grader : (judgedGrade lib rubric first second).grader = .llmJudge := by
  unfold judgedGrade
  split <;> rfl

/-- Its rationale is the verdict's, or the text of the failure. -/
theorem storableText_judgedGrade :
    storableText (judgedGrade lib rubric first second).rationale =
      match verdictOf lib rubric first second with
      | some v => storable v.rationale
      | none => storable (failureText lib rubric second) := by
  unfold judgedGrade
  cases verdictOf lib rubric first second with
  | none => exact (storableText_failedJudgeGrade _).trans (storableText_text _)
  | some v => exact storableText_text _

/-- What the pipeline makes of answers that have been read and of a deterministic grader that has not
raised: both grades, unless the scores cannot be compared. -/
theorem gradeRunItem_of_read (settings : Settings) {d : Option DeterministicGrade}
    (hrubric : rubricFromConfig libraries task.graderConfig = .ok (some rubric))
    (hread : AnswersRead lib rubric first second)
    (hd : runDeterministic libraries task output = .ok d) :
    (d ≠ none ∧ verdictOf lib rubric first second ≠ none ∧ settings.disagreementThreshold = .nan ∧
      gradeRunItem libraries settings task output
        (judgeOutcome lib rubric (answers2 first second)) = .raises invalidOperation) ∨
    ((d ≠ none → verdictOf lib rubric first second ≠ none →
        settings.disagreementThreshold ≠ .nan) ∧
      ∃ review, gradeRunItem libraries settings task output
        (judgeOutcome lib rubric (answers2 first second)) =
          .graded (d.toList.map (·.toGrade) ++ [judgedGrade lib rubric first second]) review) := by
  rw [judgeOutcome_of_read hread, readOutcome, judgedGrade]
  cases hof : verdictOf lib rubric first second with
  | none => exact .inr ⟨fun _ h => absurd rfl h, none, by simp [gradeRunItem, hd, hrubric]⟩
  | some v =>
    have hstored : v.toStored.overall = v.overall := rfl
    cases d with
    | none =>
      exact .inr ⟨fun h => absurd rfl h, none, by simp [gradeRunItem, hd, hrubric, hstored]⟩
    | some g =>
      by_cases hnan : settings.disagreementThreshold = .nan
      · refine .inl ⟨by simp, by simp, hnan, ?_⟩
        simp [gradeRunItem, hd, hrubric, reviewItemForDisagreement, hnan]
      · obtain ⟨review, hreview⟩ :=
          reviewItemForDisagreement_ok hnan g.score (thousandths v.overall.value)
        exact .inr ⟨fun _ _ => hnan, review,
          by simp [gradeRunItem, hd, hrubric, hstored, hreview]⟩

/-- Both rows can be stored. -/
theorem storableGrades_judged {d : Option DeterministicGrade} :
    storableGrades (d.toList.map (·.toGrade) ++ [judgedGrade lib rubric first second]) = true ↔
      (∀ g, d = some g → storableText g.rationale = true) ∧
        storableText (judgedGrade lib rubric first second).rationale = true := by
  cases d with
  | none => simp [storableGrades]
  | some g => simp [storableGrades, DeterministicGrade.toGrade]

/-- Handled answers are graded: the deterministic grade, if any, and the judge's. -/
theorem gradeRunItem_of_handled
    (hrubric : rubricFromConfig libraries task.graderConfig = .ok (some rubric))
    (h : Handled libraries lib settings task output rubric first second) :
    ∃ (deterministic : Option DeterministicGrade) (review : Option ReviewReason),
      gradeRunItem libraries settings task output
        (judgeOutcome lib rubric (answers2 first second)) =
          .graded (deterministic.toList.map (·.toGrade) ++ [judgedGrade lib rubric first second])
            review ∧
      storableGrades (deterministic.toList.map (·.toGrade) ++
        [judgedGrade lib rubric first second]) = true := by
  obtain ⟨hread, hverdict, hfailure, d, hd, hdet, hnan⟩ := h
  obtain ⟨hdn, hvn, hthr, -⟩ | ⟨-, review, hgraded⟩ :=
    gradeRunItem_of_read settings hrubric hread hd
  · exact absurd hthr (hnan hdn hvn)
  · refine ⟨d, review, hgraded, storableGrades_judged.mpr ⟨hdet, ?_⟩⟩
    rw [storableText_judgedGrade]
    cases hof : verdictOf lib rubric first second with
    | none => exact hfailure hof
    | some v => exact hverdict v hof

/-- Anything else raises, or cannot be stored. -/
theorem gradeRunItem_of_not_handled
    (hrubric : rubricFromConfig libraries task.graderConfig = .ok (some rubric))
    (h : ¬ Handled libraries lib settings task output rubric first second) :
    (gradeRunItem libraries settings task output
      (judgeOutcome lib rubric (answers2 first second))).commits = false := by
  cases hd : runDeterministic libraries task output with
  | error e => simp [gradeRunItem, hd, GradingOutcome.commits]
  | ok d =>
    by_cases hread : AnswersRead lib rubric first second
    · obtain ⟨-, -, -, hraises⟩ | ⟨hnan, review, hgraded⟩ :=
        gradeRunItem_of_read settings hrubric hread hd
      · rw [hraises]
        rfl
      · rw [hgraded]
        refine Bool.eq_false_iff.mpr fun hgs => h ?_
        obtain ⟨hdet, hjudged⟩ := storableGrades_judged.mp hgs
        rw [storableText_judgedGrade] at hjudged
        exact ⟨hread, fun v hv => by simpa [hv] using hjudged, fun hv => by simpa [hv] using hjudged,
          d, hd, hdet, hnan⟩
    · obtain ⟨e, he⟩ := judgeOutcome_raises hread
      simp [gradeRunItem, hd, hrubric, he, GradingOutcome.commits]

/-- **The judge's outcome is total.**  For an item without grades, `grade_run_item` returns and
commits the judge's one grade, for these two answers, exactly if all of this holds: reading them
raises nothing but what the judge catches, what is to be stored can be, and the deterministic grader
and the comparison with it do not raise. -/
theorem judge_total (hrubric : rubricFromConfig libraries task.graderConfig = .ok (some rubric))
    {db : Db} {rid : ItemId} (hfresh : gradesOf db rid = []) :
    CommitsJudgeGrade libraries lib settings task output rubric first second db rid ↔
      Handled libraries lib settings task output rubric first second := by
  constructor
  · intro hcommits
    by_contra hnot
    obtain ⟨e, he⟩ := gradeRunItemAlone_error hfresh (gradeRunItem_of_not_handled hrubric hnot)
    obtain ⟨grades, hreturns⟩ := hcommits.returns
    simp [he] at hreturns
  · intro h
    obtain ⟨d, review, hgraded, hgs⟩ := gradeRunItem_of_handled hrubric h
    obtain ⟨hreturns, hgrades⟩ := gradeRunItemAlone_graded hfresh hgs review
    refine ⟨grade_calls lib rubric _,
      ⟨d.toList.map (·.toGrade) ++ [judgedGrade lib rubric first second], ?_⟩,
      { toNewGrade := judgedGrade lib rubric first second, runItemId := rid }, ?_,
      isJudgeGrade_judgedGrade rid⟩
    · rw [hgraded]
      exact hreturns
    · rw [hgraded, hgrades]
      cases d <;> simp [judgedGrade_grader, DeterministicGrade.toGrade]

end Total

/-- pydantic on the values of the samples, and a decimal that is the number itself. -/
def sampleJudge : JudgeLibraries where
  toJsonLibrary := plainJson
  toFloat
    | .bool b => some (.num (if b then 1 else 0))
    | .int n => some (.num n)
    | .float x => some x
    | _ => none
  toStr
    | .str s => some s
    | _ => none
  validationError _ := str "1 validation error for JudgeVerdict"
  shown x := x
  shown_mem _ h0 h1 := ⟨h0, h1⟩
  reprNames ks := str "['" ++ (str "', '").intercalate ks ++ str "']"
  describe _ := "Exceeds the limit (4300 digits) for integer string conversion"

/-- A judge's answer for the one criterion of `judgedTask`. -/
def judgeAnswer (overall : Py.Json) : Str :=
  Py.Json.dumps plainJson.codec (.obj [(str "rubric_scores", .obj [(str "accuracy", .int 1)]),
    (str "overall", overall), (str "rationale", .str (str "correct"))])

/-- An answer in prose, then one with a verdict: the grade is the verdict's. -/
theorem judge_total_small : CommitsJudgeGrade rubricLibraries sampleJudge {} judgedTask "4"
    [⟨"accuracy"⟩] (str "The answer is right.") (judgeAnswer (.int 1)) Db.empty 0 := by
  have hprose : readVerdict sampleJudge [⟨"accuracy"⟩] (str "The answer is right.") =
      .error (.parse (str "no JSON object found in judge response")) := rfl
  have hjson : readVerdict sampleJudge [⟨"accuracy"⟩] (judgeAnswer (.int 1)) =
      .ok ⟨[(str "accuracy", 1)], .num 1 (by decide +kernel) (by decide +kernel), str "correct"⟩ :=
    rfl
  have hread : ∀ text, (∀ x, readVerdict sampleJudge [⟨"accuracy"⟩] text ≠ .error (.other x)) →
      Readable plainJson text :=
    fun text h => readable_iff.mpr fun e he => h e (readVerdict_other.mpr he)
  refine (judge_total rfl rfl).mpr ⟨⟨hread _ (by simp [hprose]), fun _ => hread _ (by simp [hjson])⟩,
    ?_, ?_, none, rfl, by simp, by simp⟩
  · intro v hv
    simp only [verdictOf, accepted, hprose, hjson, Except.toOption, Option.none_or,
      Option.some.injEq] at hv
    rw [← hv]
    decide
  · simp [verdictOf, accepted, hprose, hjson, Except.toOption]

/-- A text that is an integer with too many digits is not readable. -/
theorem not_readable_of_long {n : Nat} (hn : Py.maxStrDigits < n) :
    ¬ Readable lib (List.replicate n 0x31) := by
  have hstrip : strip (List.replicate n 0x31) = List.replicate n 0x31 := by
    refine Py.stripOf_eq_self (fun c hc => ?_) fun c hc => ?_
    · obtain rfl := List.eq_of_mem_replicate (List.mem_of_mem_head? hc)
      rfl
    · obtain rfl := List.eq_of_mem_replicate (List.mem_of_mem_getLast? hc)
      rfl
  have hfence : fenced (List.replicate n 0x31) = none := by
    refine fenced_eq_none_iff.mpr ?_
    rintro ⟨a, b, c, h⟩
    have htick : 0x60 ∈ List.replicate n 0x31 := by
      rw [h]
      simp [ticks]
    exact absurd (List.eq_of_mem_replicate htick) (by decide)
  rintro ⟨hdecodes, -⟩
  rw [hstrip, hfence, Option.getD_none] at hdecodes
  cases hdecodes _ (Py.Json.loads_long lib.codec hn)

/-- An integer of 4301 digits is read by `json.loads` with a plain `ValueError`, which neither
handler takes: the whole call raises. -/
theorem judge_long_integer_raises : ¬ ∀ (libraries : Libraries) (lib : JudgeLibraries)
    (settings : Settings) (task : Task) (output : String) (rubric : List RubricCriterion)
    (first second : Str) (db : Db) (rid : ItemId),
      rubricFromConfig libraries task.graderConfig = .ok (some rubric) → gradesOf db rid = [] →
      CommitsJudgeGrade libraries lib settings task output rubric first second db rid := by
  intro hall
  have hrubric : rubricFromConfig rubricLibraries judgedTask.graderConfig =
      .ok (some [⟨"accuracy"⟩]) := rfl
  obtain ⟨grades, h⟩ := (hall rubricLibraries sampleJudge {} judgedTask "4" [⟨"accuracy"⟩]
    (List.replicate 4301 0x31) (List.replicate 4301 0x31) Db.empty 0 hrubric rfl).returns
  have hlong : ¬ Handled rubricLibraries sampleJudge {} judgedTask "4" [⟨"accuracy"⟩]
      (List.replicate 4301 0x31) (List.replicate 4301 0x31) :=
    fun hh => not_readable_of_long (n := 4301) (by decide) hh.answered.reads
  have hfresh : gradesOf Db.empty 0 = [] := rfl
  obtain ⟨e, he⟩ := gradeRunItemAlone_error hfresh (gradeRunItem_of_not_handled hrubric hlong)
  rw [he] at h
  cases h

end EvalHarness
