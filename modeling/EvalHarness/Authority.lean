/-
# The two authoritative scores of an item

`authoritative_score` of the pipeline is declared for leaderboard scoring and takes the reviewer's
label or else the mean of the grades.  The leaderboard's query takes the label of a resolved review,
or else the judge's score, or else the deterministic one.  `authoritativeScore_iff` says on which
items the two agree: with two grades they do when the mean rounds to the judge's score, that is
when the scores are equal or when they are a thousandth apart and the judge's is the even one.
-/
import EvalHarness.Leaderboard
import EvalHarness.Routing

namespace EvalHarness

/-! ## 1. `authoritative_score` -/

/-- `authoritative_score`.  The mean is exact before it is quantized: `Decimal` carries 28 digits. -/
def authoritativeScore (reviewItem : ReviewItem) (grades : List NewGrade) : Option Score :=
  match reviewItem.reviewerLabel with
  | some label => some label
  | none =>
    let scores := grades.filterMap (·.score)
    if scores = [] then none else some (.milli (roundHalfEven scores.sum scores.length))

/-! ## 2. The mean of one score, and of two -/

theorem roundHalfEven_one (n : Int) : roundHalfEven n 1 = n := by
  simp [roundHalfEven]

/-- A mean of two rounds to the second of them when they are equal, or when they are one apart and
the second is even. -/
theorem roundHalfEven_mean (d j : Int) :
    roundHalfEven (d + j) 2 = j ↔ d = j ∨ ((d = j + 1 ∨ d = j - 1) ∧ j % 2 = 0) := by
  simp only [roundHalfEven, Nat.cast_ofNat]
  split
  · omega
  · split <;> omega

/-! ## 3. Where the two agree -/

section Agreement

variable {cat : Catalog} {db : Db} {filters : Task → Bool}

/-- The score an item has from a grader. -/
def Db.scoreOf (db : Db) (i : ItemId) (kind : GraderKind) : Option Int :=
  (db.gradeOf i kind).bind (·.score)

theorem gradesOf_filter (hdb : db.UniqueRows) (i : ItemId) (kind : GraderKind) :
    ((gradesOf db i).filter fun g => g.grader == kind) = (db.gradeOf i kind).toList := by
  rw [gradesOf, List.filter_filter, Db.gradeOf, ← Sql.filter_eq_find? (hdb.grades i kind)]
  exact List.filter_congr fun g _ => Bool.and_comm _ _

/-- The scores of an item's grades are the deterministic one and the judge's. -/
theorem scores_perm (hdb : db.UniqueRows) (i : ItemId) :
    ((gradesOf db i).filterMap (·.score)).Perm
      ((db.scoreOf i .deterministic).toList ++ (db.scoreOf i .llmJudge).toList) := by
  have hkinds := List.filter_append_perm (fun g : Grade => g.grader == .deterministic)
    (gradesOf db i)
  have hother : ((gradesOf db i).filter fun g => !(g.grader == .deterministic)) =
      (gradesOf db i).filter fun g => g.grader == .llmJudge := by
    refine List.filter_congr fun g _ => ?_
    cases g.grader <;> rfl
  rw [hother, gradesOf_filter hdb, gradesOf_filter hdb] at hkinds
  have hscores := (hkinds.filterMap (·.score)).symm
  rw [List.filterMap_append] at hscores
  refine hscores.trans (List.Perm.of_eq ?_)
  unfold Db.scoreOf
  congr 1
  · cases db.gradeOf i .deterministic with
    | none => rfl
    | some g => cases hg : g.score <;> simp [hg]
  · cases db.gradeOf i .llmJudge with
    | none => rfl
    | some g => cases hg : g.score <;> simp [hg]

/-- The label counts for the leaderboard, or says what the grades say. -/
def LabelAgrees (review : ReviewItem) (label : Score) (deterministic judged : Option Int) : Prop :=
  review.status = .resolved ∨ (judged.or deterministic).map Score.milli = some label

/-- Without a label, two scores are equal, or a thousandth apart with the judge's even. -/
def ScoresAgree (deterministic judged : Option Int) : Prop :=
  ∀ d ∈ deterministic, ∀ j ∈ judged, d = j ∨ ((d = j + 1 ∨ d = j - 1) ∧ j % 2 = 0)

/-- The leaderboard's score, in terms of the label and the two scores. -/
theorem effectiveScore_eq {i : ItemId} {review : ReviewItem} (hreview : db.reviewOf i = some review) :
    db.effectiveScore i =
      (if review.status = .resolved then review.reviewerLabel else none).or
        (((db.scoreOf i .llmJudge).or (db.scoreOf i .deterministic)).map Score.milli) := by
  have hvalue : ∀ kind, (db.gradeOf i kind).bind (·.value) = (db.scoreOf i kind).map .milli := by
    intro kind
    unfold Db.scoreOf
    cases db.gradeOf i kind <;> rfl
  simp only [Db.effectiveScore, hreview, Option.bind_some, hvalue]
  cases if review.status = .resolved then review.reviewerLabel else none with
  | some label => rfl
  | none => cases db.scoreOf i .llmJudge <;> rfl

/-- The mean of the scores there are is the leaderboard's choice exactly if they agree. -/
theorem mean_eq_iff {scores : List Int} {deterministic judged : Option Int}
    (h : scores.Perm (deterministic.toList ++ judged.toList)) :
    (if scores = [] then none else some (Score.milli (roundHalfEven scores.sum scores.length))) =
        (judged.or deterministic).map Score.milli ↔
      ScoresAgree deterministic judged := by
  have hsum := h.sum_eq
  have hlen := h.length_eq
  have hnil : scores = [] ↔ deterministic.toList ++ judged.toList = [] := by
    rw [← List.length_eq_zero_iff, hlen, List.length_eq_zero_iff]
  rw [hsum, hlen]
  simp only [hnil]
  cases deterministic with
  | none =>
    cases judged with
    | none => simp [ScoresAgree]
    | some j => simp [ScoresAgree, roundHalfEven_one]
  | some d =>
    cases judged with
    | none => simp [ScoresAgree, roundHalfEven_one]
    | some j => simpa [ScoresAgree] using roundHalfEven_mean d j

/-- **The authoritative score and the leaderboard's.**  The query has one row for a succeeded item,
and its score is the authoritative one exactly if a label is that of a resolved review or says what
the grades say, and without a label, the grades do not disagree beyond rounding. -/
theorem authoritativeScore_iff (hdb : db.UniqueRows) {x : ItemId × RunItem × Task}
    (hx : x ∈ db.selected cat filters) {review : ReviewItem}
    (hreview : db.reviewOf x.1 = some review) {grades : List Grade}
    (hgrades : grades.Perm (gradesOf db x.1)) :
    ∃ e ∈ effective cat db filters, e = db.effectiveRow x ∧
      (authoritativeScore review (grades.map (·.toNewGrade)) = e.score ↔
        match review.reviewerLabel with
        | some label =>
          LabelAgrees review label (db.scoreOf x.1 .deterministic) (db.scoreOf x.1 .llmJudge)
        | none => ScoresAgree (db.scoreOf x.1 .deterministic) (db.scoreOf x.1 .llmJudge)) := by
  refine ⟨db.effectiveRow x, ?_, rfl, ?_⟩
  · rw [effective_eq hdb]
    exact List.mem_map.mpr ⟨x, hx, rfl⟩
  · rw [Db.effectiveRow, effectiveScore_eq hreview]
    have hscores : ((grades.map (·.toNewGrade)).filterMap (·.score)).Perm
        ((db.scoreOf x.1 .deterministic).toList ++ (db.scoreOf x.1 .llmJudge).toList) := by
      rw [List.filterMap_map]
      exact (hgrades.filterMap _).trans (scores_perm hdb x.1)
    cases hl : review.reviewerLabel with
    | none =>
      simp only [authoritativeScore, hl, ite_self, Option.none_or]
      exact mean_eq_iff hscores
    | some label =>
      simp only [authoritativeScore, hl, LabelAgrees]
      by_cases hst : review.status = .resolved
      · simp [hst]
      · simp [hst, eq_comm]

end Agreement

/-! ## 4. An item graded by both -/

/-- One succeeded item, its two grades and its open review. -/
def comparedDb (deterministic judged : Int) : Db where
  runs := Table.empty
  items := ⟨[(0, { evalRunId := 0, taskId := 0, modelEndpointId := 0, status := .succeeded })],
    by simp⟩
  grades :=
    [{ runItemId := 0, grader := .deterministic, score := some deterministic, passed := none,
       rationale := "exact match" },
     { runItemId := 0, grader := .llmJudge, score := some judged, passed := none,
       rationale := "close" }]
  reviews := [{ runItemId := 0, reason := .judgeDisagreement }]

theorem comparedDb_uniqueRows (deterministic judged : Int) :
    (comparedDb deterministic judged).UniqueRows where
  grades i kind := by
    by_cases hi : (0 : Nat) = i <;> cases kind <;> simp [comparedDb, hi]
  reviews i := by
    by_cases hi : (0 : Nat) = i <;> simp [comparedDb, hi]

/-- The item beside its row and its task. -/
def comparedItem : ItemId × RunItem × Task :=
  (0, { evalRunId := 0, taskId := 0, modelEndpointId := 0, status := .succeeded },
    ⟨0, "2 + 2?", "arithmetic", some "4", .exactMatch, none⟩)

/-- The graders agree to a thousandth: both paths say what the judge says. -/
theorem authoritativeScore_compared :
    ∃ e ∈ effective (smallConfig 1 1 0).catalog (comparedDb 999 1000) fun _ => true,
      e.score = some (.milli 1000) ∧
      authoritativeScore { runItemId := 0, reason := .judgeDisagreement }
        ((comparedDb 999 1000).grades.map (·.toNewGrade)) = e.score := by
  have hsel : comparedItem ∈ (comparedDb 999 1000).selected (smallConfig 1 1 0).catalog
      fun _ => true := by decide
  have hreview : (comparedDb 999 1000).reviewOf comparedItem.1 =
      some { runItemId := 0, reason := .judgeDisagreement } := by decide
  obtain ⟨e, he, hrow, hiff⟩ := authoritativeScore_iff (comparedDb_uniqueRows 999 1000) hsel hreview
    (.refl _)
  exact ⟨e, he, by rw [hrow]; decide, hiff.mpr (by simp [ScoresAgree]; decide)⟩

/-- A right answer the judge gives 0.8: 0.9 for the pipeline, 0.8 for the leaderboard. -/
theorem authoritativeScore_differs : ¬ ∀ (cat : Catalog) (db : Db) (filters : Task → Bool)
    (x : ItemId × RunItem × Task) (review : ReviewItem), db.UniqueRows →
      x ∈ db.selected cat filters → db.reviewOf x.1 = some review →
      authoritativeScore review ((gradesOf db x.1).map (·.toNewGrade)) =
        (db.effectiveRow x).score := by
  intro hall
  exact absurd (hall (smallConfig 1 1 0).catalog (comparedDb 1000 800) (fun _ => true) comparedItem
    { runItemId := 0, reason := .judgeDisagreement } (comparedDb_uniqueRows 1000 800) (by decide)
    (by decide)) (by decide)

end EvalHarness
