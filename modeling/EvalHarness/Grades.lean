/-
# Grades and reviews are unique, when calls do not overlap

`grade_run_item` looks for grades of its item, grades, looks for a review and commits.  Nothing
holds between the look and the commit: no lock is taken and no unique constraint backs the two
tables, so a second call that looked before the first one committed commits as well
(`graded_twice`).  The leaderboard then counts the item once for each pair of grades.

`grades_unique` is the guarantee for the schedules in which no call commits grades while another
call on the item is on its way from its look to its commit.
-/
import EvalHarness.Grading
import EvalHarness.Transitions
import Mathlib.Data.Fintype.Basic

namespace EvalHarness

open Lts

variable {σ η : Type} [DecidableEq σ] [DecidableEq η] {cfg : Config} {w w' : World σ η}
  {lib : Libraries} {settings : Settings}

/-! ## 1. The schedule -/

/-- The graders of the schedule are those of `app/graders`: what they answer is what
`grade_run_item` makes of the task and the output of the execution that asks. -/
def Judges (lib : Libraries) (settings : Settings) (w : World σ η) (l : Label σ η) : Prop :=
  ∀ s c i v r, l = .exec s c → w.workers s = some ⟨i, .at v (.judge r)⟩ →
    ∃ judge, c.grading = gradeRunItem lib settings v.task r.text judge

/-- The look for grades has found none, and the grades have still to be committed. -/
def Pc.isGrading : Pc → Bool
  | .judge _ | .reviewCheck .. | .gradeCommit .. => true
  | _ => false

/-- The item an execution is grading. -/
def Exec.grades (e : Exec) : Option ItemId :=
  match e.phase with
  | .at _ pc => if pc.isGrading then some e.rid else none
  | .start => none

/-- The slot whose execution commits grades, and the item they are for. -/
def commitsGrades (p : World σ η × Label σ η) : Option (σ × ItemId) :=
  match p.2 with
  | .exec s _ =>
    match p.1.workers s with
    | some ⟨i, .at _ (.gradeCommit (g :: gs) _)⟩ =>
      if storableGrades (g :: gs) then some (s, i) else none
    | _ => none
  | _ => none

/-- Nobody commits grades of an item while another execution is grading it. -/
def Serial (w : World σ η) (l : Label σ η) : Prop :=
  ∀ x ∈ commitsGrades (w, l), ∀ s, ∀ e ∈ w.workers s, e.grades = some x.2 → s = x.1

instance [Fintype σ] (w : World σ η) (l : Label σ η) : Decidable (Serial w l) :=
  inferInstanceAs (Decidable (∀ x ∈ commitsGrades (w, l), ∀ s, ∀ e ∈ w.workers s,
    e.grades = some x.2 → s = x.1))

theorem commitsGrades_eq_some {σ η : Type} {w : World σ η} {l : Label σ η} {y : σ × ItemId} :
    commitsGrades (w, l) = some y ↔ ∃ c v g gs review, l = .exec y.1 c ∧
      w.workers y.1 = some ⟨y.2, .at v (.gradeCommit (g :: gs) review)⟩ ∧
        storableGrades (g :: gs) = true := by
  constructor
  · intro h
    cases l with
    | exec s c =>
      simp only [commitsGrades] at h
      split at h
      · rename_i i v g gs review he
        split at h
        · rename_i hgs
          obtain rfl := Option.some.inj h
          exact ⟨c, v, g, gs, review, rfl, he, hgs⟩
        · exact absurd h (by simp)
      · exact absurd h (by simp)
    | _ => exact absurd h (by simp [commitsGrades])
  · rintro ⟨c, v, g, gs, review, rfl, he, hgs⟩
    simp [commitsGrades, he, hgs]

theorem commitsGrades_of_ne_nil {σ η : Type} {w : World σ η}
    {s : σ} {c : Choice} {i : ItemId} {v : Loaded}
    {gs : List NewGrade} {review : Option ReviewReason}
    (he : w.workers s = some ⟨i, .at v (.gradeCommit gs review)⟩) (hne : gs ≠ [])
    (hgs : storableGrades gs = true) : commitsGrades (w, .exec s c) = some (s, i) := by
  obtain ⟨g, gs, rfl⟩ := List.exists_cons_of_ne_nil hne
  exact commitsGrades_eq_some.mpr ⟨c, v, g, gs, review, rfl, he, hgs⟩

/-! ## 2. What an execution that is grading knows -/

/-- What the graders made of the output, from their answer to the commit. -/
def Pc.graded : Pc → Option (List NewGrade × Option ReviewReason)
  | .reviewCheck gs reason => some (gs, some reason)
  | .gradeCommit gs review => some (gs, review)
  | _ => none

structure Unrivalled (w : World σ η) : Prop where
  /-- The look for grades still holds. -/
  ungraded : ∀ s i v pc, w.workers s = some ⟨i, .at v pc⟩ → pc.isGrading = true →
    ∀ g ∈ w.store.db.grades, g.runItemId ≠ i
  /-- So does the look for a review. -/
  unreviewed : ∀ s i v gs reason,
    w.workers s = some ⟨i, .at v (.gradeCommit gs (some reason))⟩ →
      ∀ x ∈ w.store.db.reviews, x.runItemId ≠ i
  answered : ∀ s i v pc gs review, w.workers s = some ⟨i, .at v pc⟩ → pc.graded = some (gs, review) →
    (gs.map (·.grader)).Nodup ∧ (review ≠ none → gs ≠ [])
  rows : w.store.db.UniqueRows

theorem unrivalled_init {σ η : Type} : Unrivalled (World.init : World σ η) where
  ungraded s i v pc he := absurd he (by simp [World.init])
  unreviewed s i v gs reason he := absurd he (by simp [World.init])
  answered s i v pc gs review he := absurd he (by simp [World.init])
  rows := ⟨fun _ _ => by simp [World.init, Db.empty], fun _ => by simp [World.init, Db.empty]⟩

/-! ## 3. One transition -/

def World.IsGraded (w : World σ η) (i : ItemId) : Prop := ∃ g ∈ w.store.db.grades, g.runItemId = i

/-- Grades stay. -/
theorem World.IsGraded.step {l : Label σ η} {i : ItemId} (h : w.IsGraded i)
    (hs : step cfg w l = some w') : w'.IsGraded i := by
  obtain ⟨g, hg, hi⟩ := h
  rcases step_grades hs with ⟨hg', -⟩ | ⟨_, _, _, _, _, _, -, -, -, hdb⟩
  · exact ⟨g, hg' ▸ hg, hi⟩
  · exact ⟨g, by simp [hdb, insertGrades, hg], hi⟩

/-- The step commits nothing for item `i`. -/
def CommitsNothing (w : World σ η) (l : Label σ η) (i : ItemId) : Prop :=
  ∀ s c v gs review, l = .exec s c → w.workers s = some ⟨i, .at v (.gradeCommit gs review)⟩ →
    storableGrades gs = true → gs = [] ∧ review = none

/-- The rows of such an item were there before. -/
theorem CommitsNothing.rows {l : Label σ η} {i : ItemId} (hn : CommitsNothing w l i)
    (hs : step cfg w l = some w') :
    (∀ g ∈ w'.store.db.grades, g.runItemId = i → g ∈ w.store.db.grades) ∧
      ∀ x ∈ w'.store.db.reviews, x.runItemId = i → x ∈ w.store.db.reviews := by
  rcases step_grades hs with ⟨hg, hr⟩ | ⟨s, c, j, v, gs, review, rfl, he, hgs, hdb⟩
  · rw [hg, hr]
    exact ⟨fun _ h _ => h, fun _ h _ => h⟩
  · rw [hdb]
    simp only [insertGrades, List.mem_append, List.mem_map]
    constructor
    · rintro g (hg | ⟨g', hg', rfl⟩) hi
      · exact hg
      · obtain ⟨rfl, -⟩ := hn s c v gs review rfl (hi ▸ he) hgs
        exact absurd hg' (by simp)
    · rintro x (hx | ⟨reason, hr, rfl⟩) hi
      · exact hx
      · obtain ⟨-, rfl⟩ := hn s c v gs review rfl (hi ▸ he) hgs
        exact absurd hr (by simp)

/-- In a serial schedule nothing is committed for an item that is being graded behind the step. -/
theorem Unrivalled.commitsNothing {l : Label σ η} (hA : Unrivalled w) (hu : Serial w l)
    (hs : step cfg w l = some w') {s : σ} {i : ItemId} {v : Loaded} {pc : Pc}
    (he' : w'.workers s = some ⟨i, .at v pc⟩) (hpc : pc.isGrading = true) :
    CommitsNothing w l i := by
  rintro s₀ c₀ v₀ gs review rfl he hstored
  have hgs : gs = [] := by
    by_contra hne
    have hcom := commitsGrades_of_ne_nil (c := c₀) he hne hstored
    have hfirst : pc.isFirst = false := by
      cases pc <;> first | rfl | exact absurd hpc (by simp [Pc.isGrading])
    rcases step_pc hs he' hfirst with ⟨hw, hl⟩ | ⟨c, pc₀, hl, hw, hstep⟩
    · obtain rfl : s = s₀ := hu _ hcom s _ hw (by simp [Exec.grades, hpc])
      exact hl c₀ rfl
    · obtain ⟨rfl, -⟩ := Label.exec.inj hl
      obtain ⟨-, hphase⟩ := Exec.mk.inj (Option.some.inj (hw.symm.trans he))
      obtain ⟨-, rfl⟩ := Phase.at.inj hphase
      cases hstep <;> exact absurd hpc (by simp [Pc.isGrading])
  refine ⟨hgs, ?_⟩
  by_contra hne
  exact (hA.answered s₀ i v₀ _ gs review he rfl).2 hne hgs

theorem ungraded_step {l : Label σ η} (hA : Unrivalled w) (hu : Serial w l)
    (hs : step cfg w l = some w') {s : σ} {i : ItemId} {v : Loaded} {pc : Pc}
    (he' : w'.workers s = some ⟨i, .at v pc⟩) (hpc : pc.isGrading = true) :
    ∀ g ∈ w'.store.db.grades, g.runItemId ≠ i := by
  have hold : ∀ g ∈ w.store.db.grades, g.runItemId ≠ i := by
    have hfirst : pc.isFirst = false := by
      cases pc <;> first | rfl | exact absurd hpc (by simp [Pc.isGrading])
    rcases step_pc hs he' hfirst with ⟨hw, -⟩ | ⟨c, pc₀, -, hw, hstep⟩
    · exact hA.ungraded s i v pc hw hpc
    · cases hstep with
      | ungraded hg =>
        intro g hmem hgi
        rw [List.any_eq_false] at hg
        exact hg g hmem (by simpa using hgi)
      | agreed | disagreed | reviewed | unreviewed => exact hA.ungraded s i v _ hw rfl
      | _ => exact absurd hpc (by simp [Pc.isGrading])
  intro g hg hi
  exact hold g (((hA.commitsNothing hu hs he' hpc).rows hs).1 g hg hi) hi

theorem unreviewed_step {l : Label σ η} (hA : Unrivalled w) (hu : Serial w l)
    (hs : step cfg w l = some w') {s : σ} {i : ItemId} {v : Loaded} {gs : List NewGrade}
    {reason : ReviewReason}
    (he' : w'.workers s = some ⟨i, .at v (.gradeCommit gs (some reason))⟩) :
    ∀ x ∈ w'.store.db.reviews, x.runItemId ≠ i := by
  have hold : ∀ x ∈ w.store.db.reviews, x.runItemId ≠ i := by
    rcases step_pc hs he' rfl with ⟨hw, -⟩ | ⟨c, pc₀, -, hw, hstep⟩
    · exact hA.unreviewed s i v gs reason hw
    · cases hstep with
      | unreviewed hr =>
        intro x hx hi
        rw [List.any_eq_false] at hr
        exact hr x hx (by simpa using hi)
  intro x hx hi
  exact hold x (((hA.commitsNothing hu hs he' rfl).rows hs).2 x hx hi) hi

theorem answered_step {l : Label σ η} (hA : Unrivalled w) (hj : Judges lib settings w l)
    (hs : step cfg w l = some w') {s : σ} {i : ItemId} {v : Loaded} {pc : Pc}
    {gs : List NewGrade} {review : Option ReviewReason} (he' : w'.workers s = some ⟨i, .at v pc⟩)
    (hpc : pc.graded = some (gs, review)) :
    (gs.map (·.grader)).Nodup ∧ (review ≠ none → gs ≠ []) := by
  have hfirst : pc.isFirst = false := by
    cases pc <;> first | rfl | exact absurd hpc (by simp [Pc.graded])
  rcases step_pc hs he' hfirst with ⟨hw, -⟩ | ⟨c, pc₀, rfl, hw, hstep⟩
  · exact hA.answered s i v pc gs review hw hpc
  · cases hstep with
    | agreed hc | disagreed hc =>
      simp only [Pc.graded, Option.some.injEq, Prod.mk.injEq] at hpc
      obtain ⟨rfl, rfl⟩ := hpc
      obtain ⟨judge, hjudge⟩ := hj s c i v _ rfl hw
      have hout := hjudge.symm.trans hc
      exact ⟨gradeRunItem_nodup hout, gradeRunItem_review hout⟩
    | reviewed =>
      simp only [Pc.graded, Option.some.injEq, Prod.mk.injEq] at hpc
      obtain ⟨rfl, rfl⟩ := hpc
      exact ⟨(hA.answered s i v _ _ _ hw rfl).1, fun h => absurd rfl h⟩
    | unreviewed =>
      simp only [Pc.graded, Option.some.injEq, Prod.mk.injEq] at hpc
      obtain ⟨rfl, rfl⟩ := hpc
      exact hA.answered s i v _ _ _ hw rfl
    | _ => exact absurd hpc (by simp [Pc.graded])

/-- A commit that finds neither grades nor a review of its item leaves the rows unique. -/
theorem insertGrades_unique {db : Db} {i : ItemId} {gs : List NewGrade}
    {review : Option ReviewReason} (hdb : db.UniqueRows) (hg : ∀ g ∈ db.grades, g.runItemId ≠ i)
    (hr : review ≠ none → ∀ x ∈ db.reviews, x.runItemId ≠ i)
    (hgs : (gs.map (·.grader)).Nodup) : (insertGrades db i gs review).UniqueRows where
  grades k kind := by
    simp only [insertGrades, List.countP_append, List.countP_map, Function.comp_def]
    by_cases hk : i = k
    · subst hk
      have hold : (db.grades.countP fun g => g.runItemId == i && g.grader == kind) = 0 := by
        rw [List.countP_eq_zero]
        intro g hmem
        simp [hg g hmem]
      have hnew : (gs.countP fun g => g.grader == kind) ≤ 1 := by
        have := List.nodup_iff_count_le_one.mp hgs kind
        rwa [List.count, List.countP_map] at this
      simpa [hold] using hnew
    · simpa [beq_false_of_ne hk] using hdb.grades k kind
  reviews k := by
    simp only [insertGrades, List.countP_append, List.countP_map, Function.comp_def]
    cases review with
    | none => simpa using hdb.reviews k
    | some reason =>
      by_cases hk : i = k
      · subst hk
        have hold : (db.reviews.countP fun x => x.runItemId == i) = 0 := by
          rw [List.countP_eq_zero]
          intro x hmem
          simp [hr (by simp) x hmem]
        simp [hold]
      · simpa [beq_false_of_ne hk] using hdb.reviews k

theorem unrivalled_step {l : Label σ η} (hA : Unrivalled w) (hj : Judges lib settings w l)
    (hu : Serial w l) (hs : step cfg w l = some w') : Unrivalled w' where
  ungraded s i v pc he' hpc := ungraded_step hA hu hs he' hpc
  unreviewed s i v gs reason he' := unreviewed_step hA hu hs he'
  answered s i v pc gs review he' hpc := answered_step hA hj hs he' hpc
  rows := by
    rcases step_grades hs with ⟨hg, hr⟩ | ⟨s, c, i, v, gs, review, rfl, he, -, hdb⟩
    · exact ⟨by rw [hg]; exact hA.rows.grades, by rw [hr]; exact hA.rows.reviews⟩
    · rw [hdb]
      refine insertGrades_unique hA.rows (hA.ungraded s i v _ he rfl) ?_
        (hA.answered s i v _ gs review he rfl).1
      intro hne
      obtain ⟨reason, rfl⟩ := Option.ne_none_iff_exists'.mp hne
      exact hA.unreviewed s i v gs reason he

/-! ## 4. The guarantee, and the run without it -/

/-- **Grades and reviews are unique.**  In every run in which nobody commits grades of an item
while another execution is grading it, each item has at most one grade of each kind and at most
one review. -/
theorem grades_unique {tr : List (World σ η × Label σ η)} (hrun : Run (step cfg) World.init tr w)
    (hj : Along (Judges lib settings) tr) (hu : Along Serial tr) : w.store.db.UniqueRows :=
  (hrun.invariant (I := Unrivalled)
    (fun _ _ _ hA hok hs => unrivalled_step hA hok.1 hok.2 hs) (hj.and hu) unrivalled_init).rows

/-- A concrete engine: a pattern is searched for as it stands, which is what the real one does
with a pattern without metacharacters. -/
def plainLibraries : Libraries where
  lower := String.toLower
  search p text _ := .ok (decide (p.toList <:+: text.toList))
  fullmatch p text _ := .ok (p == text)
  patternError _ := "first argument must be string or compiled pattern"
  validateCriterion _ := .error "1 validation error for RubricCriterion"

/-- The grade of the right answer. -/
def matched : NewGrade := (matchGrade true "exact match").toGrade

/-- The provider answers, and the grader finds the answer right. -/
def answersMatched : Choice := { answers with grading := .graded [matched] none }

/-- Whoever is judged has the small installation's task and the answer above. -/
def judgesMatched (w : World σ η) (l : Label σ η) : Bool :=
  match l with
  | .exec s c =>
    match w.workers s with
    | some ⟨_, .at v (.judge r)⟩ =>
      v.task.graderType == .exactMatch && v.task.expectedOutput == some r.text &&
        v.task.graderConfig == none && c.grading == .graded [matched] none
    | _ => true
  | _ => true

theorem judges_of_matched {σ η : Type} {w : World σ η}
    {l : Label σ η} (h : judgesMatched w l = true) :
    Judges lib settings w l := by
  rintro s c i v r rfl he
  simp only [judgesMatched, he, Bool.and_eq_true, beq_iff_eq] at h
  obtain ⟨⟨⟨ht, hexp⟩, hcfg⟩, hc⟩ := h
  refine ⟨.raises "not called", ?_⟩
  rw [hc]
  simp [gradeRunItem, runDeterministic, rubricFromConfig, Py.Json.field, gradeExactMatch, ht, hexp, hcfg,
    matched]

/-- A message is delivered twice; the second execution starts over when the first has finished,
finds its grades and adds none. -/
theorem grades_unique_small : ∃ (tr : List (World (Fin 2) (Fin 1) × Label (Fin 2) (Fin 1)))
    (w : World (Fin 2) (Fin 1)), Run (step (smallConfig 1 1 5000000)) World.init tr w ∧
      w.store.db.grades.length = 1 ∧ w.store.db.UniqueRows := by
  obtain ⟨tr, w, hrun, hall, htest⟩ := exists_run_of_play
    (step (smallConfig 1 1 5000000)) (World.init : World (Fin 2) (Fin 1))
    (fun w l => judgesMatched w l && decide (Serial w l))
    (launch 0 1 ++ [.deliver 0 0, .redeliver 1 0] ++ execs 1 answersMatched 1 ++
      execs 0 answersMatched 11 ++ execs 1 answersMatched 8)
    (fun _ w => w.store.db.grades.length == 1 && (w.workers 1).isNone)
    (by decide)
  simp only [Bool.and_eq_true, beq_iff_eq] at htest
  have hj : Along (Judges plainLibraries {}) tr :=
    hall.mono fun _ _ h => judges_of_matched (Bool.and_eq_true_iff.mp h).1
  have hu : Along Serial tr :=
    hall.mono fun _ _ h => of_decide_eq_true (Bool.and_eq_true_iff.mp h).2
  exact ⟨tr, w, hrun, htest.1, grades_unique hrun hj hu⟩

/-- A message is delivered twice.  Both executions look for grades before either commits: the item
is graded twice. -/
theorem graded_twice : ¬ ∀ (lib : Libraries) (settings : Settings)
    (tr : List (World (Fin 2) (Fin 1) × Label (Fin 2) (Fin 1))) (w : World (Fin 2) (Fin 1)),
      Run (step (smallConfig 1 1 5000000)) World.init tr w → Along (Judges lib settings) tr →
        w.store.db.UniqueRows := by
  intro hall
  obtain ⟨tr, w, hrun, hok, htest⟩ := exists_run_of_play
    (step (smallConfig 1 1 5000000)) (World.init : World (Fin 2) (Fin 1)) judgesMatched
    (launch 0 1 ++ [.deliver 0 0, .redeliver 1 0] ++ execs 1 answersMatched 1 ++
      execs 0 answersMatched 8 ++ execs 1 answersMatched 9 ++ execs 0 answersMatched 2)
    (fun _ w => (w.store.db.grades.countP fun g => g.runItemId == 0 && g.grader == .deterministic) == 2)
    (by decide)
  have hj : Along (Judges plainLibraries {}) tr := hok.mono fun _ _ h => judges_of_matched h
  have hone := (hall plainLibraries {} tr w hrun hj).grades 0 .deterministic
  rw [beq_iff_eq] at htest
  omega

end EvalHarness
