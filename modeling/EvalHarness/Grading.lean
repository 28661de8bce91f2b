/-
# Grading (`app/graders`)

What `grade_run_item` makes of an output: the deterministic grade, the grade of the judge, and
whether a human is to look at the item.  The database side, with its reads and its commit, is in
the worker; this module says which outcomes the step `judge` can have there.

The regular expression engine, `str.lower` and the validation of a rubric criterion come from
libraries and are parameters (`Libraries`).  So is the judge here: a call of `llm_judge.grade` ends
with a verdict, with a parse error, or with an error of the provider, and what it does before that
is a module of its own.
-/
import EvalHarness.Lib.PyJson
import EvalHarness.Scores
import EvalHarness.Worker

namespace EvalHarness

open Py (Json Str str)

/-! ## 1. `app/graders/deterministic.py` -/

/-- One criterion of a rubric; the weight and the description only enter the judge's prompt. -/
structure RubricCriterion where
  name : String
  deriving DecidableEq

/-- The library functions grading calls; an `Except.error` is the text of what they raise. -/
structure Libraries where
  /-- `str.lower`. -/
  lower : String → String
  /-- `re.search(pattern, text, flags) is not None`; the flag is `re.IGNORECASE`. -/
  search : String → String → Bool → Except String Bool
  fullmatch : String → String → Bool → Except String Bool
  /-- What either raises for a pattern that is no string. -/
  patternError : Json → String
  /-- `RubricCriterion.model_validate`. -/
  validateCriterion : Json → Except String RubricCriterion

structure DeterministicGrade where
  score : Int
  passed : Bool
  rationale : String
  deriving DecidableEq

/-- The grade of a match or a mismatch: `_PASS` or `_FAIL`. -/
def matchGrade (matched : Bool) (rationale : String) : DeterministicGrade :=
  ⟨if matched then 1000 else 0, matched, rationale⟩

/-- The characters `str.split()` splits at. -/
def isSpace (c : Char) : Bool := Py.isSpace c.toNat

/-- `text.split()`. -/
def words (text : String) : List (List Char) :=
  (text.toList.splitOnP isSpace).filter fun w => !w.isEmpty

/-- `_normalize_whitespace`. -/
def normalizeWhitespace (text : String) : String :=
  String.ofList ([' '].intercalate (words text))

/-- `grade_exact_match`. -/
def gradeExactMatch (lib : Libraries) (actual expected : String)
    (config : Option (List (Str × Json)) := none) : DeterministicGrade :=
  let cfg := config.getD []
  let normalize := if (Json.field cfg (str "normalize_whitespace") (.bool true)).truthy then
    normalizeWhitespace else id
  let fold := if (Json.field cfg (str "case_sensitive") (.bool false)).truthy then id else lib.lower
  matchGrade (fold (normalize actual) == fold (normalize expected)) "exact match"

/-- `grade_regex`. -/
def gradeRegex (lib : Libraries) (actual : String) (pattern : Json)
    (config : Option (List (Str × Json)) := none) : Except String DeterministicGrade :=
  let cfg := config.getD []
  let ignoreCase := (Json.field cfg (str "ignore_case") (.bool false)).truthy
  match pattern with
  | .str p => do
    let matched ←
      if (Json.field cfg (str "fullmatch") (.bool false)).truthy then
        lib.fullmatch (Py.text p) actual ignoreCase
      else lib.search (Py.text p) actual ignoreCase
    return matchGrade matched s!"regex {Py.text p}"
  | _ => .error (lib.patternError pattern)

/-- `cfg.get("pattern") or task.expected_output`. -/
def regexPattern (task : Task) : Json :=
  let pattern := Json.field (task.graderConfig.getD []) (str "pattern")
  if pattern.truthy then pattern else (task.expectedOutput.map fun s => .str (str s)).getD .null

/-- `run_deterministic`. -/
def runDeterministic (lib : Libraries) (task : Task) (actual : String) :
    Except String (Option DeterministicGrade) :=
  let cfg := task.graderConfig.getD []
  match task.graderType with
  | .exactMatch =>
    match task.expectedOutput with
    | none => .ok none
    | some expected => .ok (some (gradeExactMatch lib actual expected (some cfg)))
  | .regex =>
    if (regexPattern task).truthy then
      (gradeRegex lib actual (regexPattern task) (some cfg)).map some
    else .ok none
  | .llmJudge => .ok none

/-! ## 2. `app/graders/pipeline.py` -/

structure JudgeVerdict where
  rubricScores : List (String × Rat)
  overall : UnitFloat
  rationale : String
  deriving DecidableEq

/-- How a call of the judge ends. -/
inductive JudgeOutcome
  | verdict (v : JudgeVerdict)
  /-- `JudgeParseError`. -/
  | unparseable (error : String)
  | raises (error : String)
  deriving DecidableEq

/-- The thresholds of the configuration: any `float`s, as the decimals their `str` shows. -/
structure Settings where
  disagreementThreshold : Py.Float := .num (1 / 2)
  lowConfidenceMin : Py.Float := .num (2 / 5)
  lowConfidenceMax : Py.Float := .num (3 / 5)
  deriving DecidableEq

/-- `rubric_from_config`. -/
def rubricFromConfig (lib : Libraries) (config : Option (List (Str × Json))) :
    Except String (Option (List RubricCriterion)) :=
  match Json.field (config.getD []) (str "rubric") with
  | .arr (x :: xs) => ((x :: xs).mapM lib.validateCriterion).map some
  | _ => .ok none

/-- The text of what ordering a NaN `Decimal` raises. -/
def invalidOperation : String := "[<class 'decimal.InvalidOperation'>]"

/-- A score in thousandths, as a `float`. -/
def scoreFloat (score : Int) : Py.Float := .num ((score : Rat) / 1000)

/-- The score lies in the low-confidence band. -/
def Settings.inBand (settings : Settings) (score : Int) : Bool :=
  settings.lowConfidenceMin.le (scoreFloat score) && (scoreFloat score).le settings.lowConfidenceMax

/-- `_review_item_for_disagreement`, on scores in thousandths. -/
def reviewItemForDisagreement (settings : Settings) (deterministic judgeScore : Int) :
    Except String (Option ReviewReason) :=
  let delta := |deterministic - judgeScore|
  if settings.disagreementThreshold = .nan then .error invalidOperation
  else if settings.disagreementThreshold.lt (scoreFloat delta) then .ok (some .judgeDisagreement)
  else if settings.inBand judgeScore then .ok (some .lowConfidence)
  else .ok none

/-- The row of the deterministic grade. -/
def DeterministicGrade.toGrade (g : DeterministicGrade) : NewGrade :=
  { grader := .deterministic, score := some g.score, passed := some g.passed,
    rationale := g.rationale }

/-- The row of a verdict whose overall score is stored as `score`. -/
def JudgeVerdict.toGrade (v : JudgeVerdict) (score : Int) : NewGrade :=
  { grader := .llmJudge, score := some score, passed := some (decide (500 ≤ score)),
    rubricScores := some v.rubricScores, rationale := v.rationale }

/-- The row of a failed judge: no score, and never a silent 0. -/
def failedJudgeGrade (error : String) : NewGrade :=
  { grader := .llmJudge, score := none, passed := none,
    rationale := s!"judge parse failure: {error}" }

/-- What the graders of `grade_run_item` make of an output, the judge's call having ended so. -/
def gradeRunItem (lib : Libraries) (settings : Settings) (task : Task) (output : String)
    (judge : JudgeOutcome) : GradingOutcome :=
  match runDeterministic lib task output, rubricFromConfig lib task.graderConfig with
  | .error e, _ => .raises e
  | .ok _, .error e => .raises e
  | .ok deterministic, .ok none => .graded (deterministic.toList.map (·.toGrade)) none
  | .ok deterministic, .ok (some _) =>
    let grades := deterministic.toList.map (·.toGrade)
    match judge with
    | .raises e => .raises e
    | .unparseable e => .graded (grades ++ [failedJudgeGrade e]) none
    | .verdict v =>
      let judgeScore := thousandths v.overall.value
      match deterministic with
      | none => .graded (grades ++ [v.toGrade judgeScore]) none
      | some g =>
        match reviewItemForDisagreement settings g.score judgeScore with
        | .error e => .raises e
        | .ok review => .graded (grades ++ [v.toGrade judgeScore]) review

/-! ## 3. What comes out -/

section Outcomes

variable {lib : Libraries} {settings : Settings} {task : Task} {output : String}
  {judge : JudgeOutcome} {gs : List NewGrade} {review : Option ReviewReason}

/-- The ways to come through the graders without an exception, with what was seen on the way. -/
inductive GradesOf (lib : Libraries) (settings : Settings) (task : Task) (output : String) :
    JudgeOutcome → List NewGrade → Option ReviewReason → Prop
  /-- Without a rubric nobody asks the judge. -/
  | unjudged {judge deterministic} (hd : runDeterministic lib task output = .ok deterministic)
      (hr : rubricFromConfig lib task.graderConfig = .ok none) :
      GradesOf lib settings task output judge (deterministic.toList.map (·.toGrade)) none
  | unparseable {e deterministic rubric}
      (hd : runDeterministic lib task output = .ok deterministic)
      (hr : rubricFromConfig lib task.graderConfig = .ok (some rubric)) :
      GradesOf lib settings task output (.unparseable e)
        (deterministic.toList.map (·.toGrade) ++ [failedJudgeGrade e]) none
  /-- With nothing to compare it to, a verdict is taken as it is. -/
  | judged {v rubric} (hd : runDeterministic lib task output = .ok none)
      (hr : rubricFromConfig lib task.graderConfig = .ok (some rubric)) :
      GradesOf lib settings task output (.verdict v) [v.toGrade (thousandths v.overall.value)] none
  | compared {v g rubric review} (hd : runDeterministic lib task output = .ok (some g))
      (hr : rubricFromConfig lib task.graderConfig = .ok (some rubric))
      (hc : reviewItemForDisagreement settings g.score (thousandths v.overall.value) = .ok review) :
      GradesOf lib settings task output (.verdict v)
        [g.toGrade, v.toGrade (thousandths v.overall.value)] review

/-- **There are no others.** -/
theorem gradeRunItem_cases (h : gradeRunItem lib settings task output judge = .graded gs review) :
    GradesOf lib settings task output judge gs review := by
  unfold gradeRunItem at h
  cases hd : runDeterministic lib task output with
  | error e => simp [hd] at h
  | ok deterministic =>
    cases hr : rubricFromConfig lib task.graderConfig with
    | error e => simp [hd, hr] at h
    | ok rubric =>
      simp only [hd, hr] at h
      cases rubric with
      | none =>
        obtain ⟨rfl, rfl⟩ := GradingOutcome.graded.inj h
        exact .unjudged hd hr
      | some rubric =>
        cases judge with
        | raises e => exact absurd h (by simp)
        | unparseable e =>
          obtain ⟨rfl, rfl⟩ := GradingOutcome.graded.inj h
          exact .unparseable hd hr
        | verdict v =>
          cases deterministic with
          | none =>
            obtain ⟨rfl, rfl⟩ := GradingOutcome.graded.inj h
            exact .judged hd hr
          | some g =>
            cases hc : reviewItemForDisagreement settings g.score (thousandths v.overall.value) with
            | error e => simp [hc] at h
            | ok review' =>
              simp only [hc] at h
              obtain ⟨rfl, rfl⟩ := GradingOutcome.graded.inj h
              exact .compared hd hr hc

/-- The grades of one call: the deterministic one, if any, and the judge's, if there is a rubric.
Without a rubric nobody is asked for a review. -/
theorem gradeRunItem_graded (h : gradeRunItem lib settings task output judge = .graded gs review) :
    ∃ deterministic rubric, runDeterministic lib task output = .ok deterministic ∧
      rubricFromConfig lib task.graderConfig = .ok rubric ∧ (rubric = none → review = none) ∧
      ∃ judged : List NewGrade, gs = deterministic.toList.map (·.toGrade) ++ judged ∧
        judged.map (·.grader) = rubric.toList.map fun _ => .llmJudge := by
  cases gradeRunItem_cases h with
  | unjudged hd hr => exact ⟨_, none, hd, hr, fun _ => rfl, [], by simp, rfl⟩
  | unparseable hd hr | judged hd hr | compared hd hr _ =>
    exact ⟨_, some _, hd, hr, fun h => absurd h (by simp), [_], rfl, rfl⟩

/-- No grader grades twice. -/
theorem gradeRunItem_nodup (h : gradeRunItem lib settings task output judge = .graded gs review) :
    (gs.map (·.grader)).Nodup := by
  obtain ⟨deterministic, rubric, -, -, -, judged, rfl, hj⟩ := gradeRunItem_graded h
  rw [List.map_append, hj]
  cases deterministic <;> cases rubric <;> simp [DeterministicGrade.toGrade]

/-- A review is asked for with grades only. -/
theorem gradeRunItem_review (h : gradeRunItem lib settings task output judge = .graded gs review)
    (hr : review ≠ none) : gs ≠ [] := by
  obtain ⟨deterministic, rubric, -, -, hrub, judged, rfl, hj⟩ := gradeRunItem_graded h
  cases rubric with
  | none => exact absurd (hrub rfl) hr
  | some rubric =>
    intro hnil
    rw [(List.append_eq_nil_iff.mp hnil).2] at hj
    exact absurd hj (by simp)

/-- The task has a grader: `run_deterministic` gives a grade, or there is a rubric. -/
def Configured (lib : Libraries) (task : Task) : Prop :=
  (∃ output g, runDeterministic lib task output = .ok (some g)) ∨
    ∃ rubric, rubricFromConfig lib task.graderConfig = .ok (some rubric)

/-- Whether there is a deterministic grader does not depend on the output. -/
theorem runDeterministic_ne_none {output' : String} {g : DeterministicGrade}
    (h : runDeterministic lib task output = .ok (some g)) :
    runDeterministic lib task output' ≠ .ok none := by
  cases ht : task.graderType with
  | exactMatch =>
    simp only [runDeterministic, ht] at h ⊢
    cases he : task.expectedOutput with
    | none => simp [he] at h
    | some expected => simp
  | regex =>
    simp only [runDeterministic, ht] at h ⊢
    split
    · cases gradeRegex lib output' _ _ <;> simp [Except.map]
    · rename_i hn
      rw [if_neg hn] at h
      simp at h
  | llmJudge => simp [runDeterministic, ht] at h

/-- A task with a grader gets a grade, if grading does not raise. -/
theorem gradeRunItem_ne_nil (hc : Configured lib task)
    (h : gradeRunItem lib settings task output judge = .graded gs review) : gs ≠ [] := by
  obtain ⟨deterministic, rubric, hd, hr, -, judged, rfl, hj⟩ := gradeRunItem_graded h
  intro hnil
  obtain ⟨hnone, rfl⟩ := List.append_eq_nil_iff.mp hnil
  rcases hc with ⟨output', g, hg⟩ | ⟨rubric', hr'⟩
  · cases deterministic with
    | none => exact runDeterministic_ne_none hg hd
    | some g => simp at hnone
  · obtain rfl := Except.ok.inj (hr.symm.trans hr')
    simp at hj

end Outcomes

end EvalHarness
