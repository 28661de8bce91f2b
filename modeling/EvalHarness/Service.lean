/-
# Evaluation and review, together

`System.lean` has the workers and the requests that run evaluations, `Review.lean` the desk where
people claim and resolve what the graders were unsure of.  Both write `review_item`: a grading
transaction adds a row, a reviewer changes one.  `Service` is the two on the one table, with any
interleaving of their steps.

`service_projects` says that neither disturbs the other.  What a service does is a run of the system,
if one forgets how far the reviews have come, and a run of the desk, if one keeps of the workers only
the rows they add.  So everything proved of the two holds of the service, and `board_of_service` puts
it together for the leaderboard: an item with a resolved review scores what the reviewer said.
-/
import EvalHarness.Review
import EvalHarness.Columns
import EvalHarness.Routing

namespace EvalHarness

open Lts

/-! ## 1. The shared table -/

variable {σ η κ : Type} [DecidableEq σ] [DecidableEq η] [DecidableEq κ]

/-- The rows of `review_item` as the desk has them. -/
def Desk.rows (d : Desk κ) : List ReviewItem := d.reviews.rows.map Prod.snd

def World.withReviews (w : World σ η) (reviews : List ReviewItem) : World σ η :=
  { w with store := { w.store with db := { w.store.db with reviews } } }

/-- The parties of both, on one table. -/
structure Service (σ η κ : Type) where
  world : World σ η
  desk : Desk κ
  shared : world.store.db.reviews = desk.rows

/-- Both parties see the table of the desk. -/
def Service.of (w : World σ η) (d : Desk κ) : Service σ η κ := ⟨w.withReviews d.rows, d, rfl⟩

def Service.init : Service σ η κ := .of World.init Desk.init

inductive ServiceLabel (σ η κ : Type)
  /-- A step of the system; `k` is the id of the review item it adds, if it does. -/
  | work (l : Label σ η) (k : ReviewId)
  /-- A step of the desk. -/
  | desk (l : DeskLabel κ)

def DeskLabel.isInsert : DeskLabel κ → Bool
  | .insert .. => true
  | _ => false

/-- The rows of `review_item` a step of the system has added. -/
def addedReviews (w w' : World σ η) : List ReviewItem :=
  w'.store.db.reviews.drop w.store.db.reviews.length

/-- The row a grading transaction adds, as a step of the desk. -/
def insertOf (k : ReviewId) (row : ReviewItem) : DeskLabel κ := .insert k row.runItemId row.reason

/-- The transitions of the service.  Review items come from the workers only. -/
def serviceStep (cfg : Config) (S : Service σ η κ) : ServiceLabel σ η κ → Option (Service σ η κ)
  | .work l k =>
    (step cfg S.world l).bind fun w =>
      match addedReviews S.world w with
      | [] => some (.of w S.desk)
      | row :: _ => (deskStep S.desk (insertOf k row)).map (.of w)
  | .desk l => if l.isInsert then none else (deskStep S.desk l).map (.of S.world)

variable {cfg : Config} {w w' : World σ η} {d d' : Desk κ} {S S' : Service σ η κ}

/-! ## 2. What a step can do -/

theorem World.withReviews_self {σ η κ : Type} {w : World σ η} {d : Desk κ}
    (h : w.store.db.reviews = d.rows) : w.withReviews d.rows = w := by
  rw [← h]
  rfl

theorem Service.of_eq {σ η κ : Type} {w : World σ η} {d : Desk κ}
    (h : w.store.db.reviews = d.rows) : Service.of w d = ⟨w, d, h⟩ := by
  have hw := World.withReviews_self h
  simp only [Service.of]
  congr

/-- A step of the system leaves the reviews alone or adds one. -/
theorem step_reviews {l : Label σ η} (hs : step cfg w l = some w') :
    w'.store.db.reviews = w.store.db.reviews ∨
      ∃ i reason, w'.store.db.reviews = w.store.db.reviews ++ [openReview i reason] := by
  rcases step_grades hs with ⟨-, hr⟩ | ⟨s, c, i, v, gs, review, -, -, -, hdb⟩
  · exact Or.inl hr
  · rw [hdb, insertGrades_reviews]
    cases review with
    | none => exact Or.inl (by simp)
    | some reason => exact Or.inr ⟨i, reason, by simp⟩

theorem rows_of_insert {k : ReviewId} {i : ItemId} {reason : ReviewReason}
    (hs : deskStep d (.insert k i reason) = some d') : d'.rows = d.rows ++ [openReview i reason] := by
  obtain ⟨reviews, hins, rfl⟩ := Option.map_eq_some_iff.mp hs
  simp [Desk.rows, Table.rows_insertAll hins]

/-- A step of the service is one of the system, with the row it adds, or one of the desk. -/
inductive ServiceStep (cfg : Config) (S S' : Service σ η κ) : ServiceLabel σ η κ → Prop
  | work {l k} (hs : step cfg S.world l = some S'.world)
      (hsame : S'.world.store.db.reviews = S.world.store.db.reviews) (hd : S'.desk = S.desk) :
      ServiceStep cfg S S' (.work l k)
  | reviewed {l k i reason} (hs : step cfg S.world l = some S'.world)
      (hadd : S'.world.store.db.reviews = S.world.store.db.reviews ++ [openReview i reason])
      (hd : deskStep S.desk (.insert k i reason) = some S'.desk) :
      ServiceStep cfg S S' (.work l k)
  | desk {l} (hl : l.isInsert = false) (hd : deskStep S.desk l = some S'.desk)
      (hw : S'.world = S.world.withReviews S'.desk.rows) : ServiceStep cfg S S' (.desk l)

theorem serviceStep_cases {l : ServiceLabel σ η κ} (hs : serviceStep cfg S l = some S') :
    ServiceStep cfg S S' l := by
  cases l with
  | work l k =>
    obtain ⟨w', hw, hs⟩ := Option.bind_eq_some_iff.mp hs
    rcases step_reviews hw with hsame | ⟨i, reason, hadd⟩
    · have hnone : addedReviews S.world w' = [] := by rw [addedReviews, hsame, List.drop_length]
      rw [hnone] at hs
      obtain rfl := Option.some.inj hs
      rw [Service.of_eq (hsame.trans S.shared)]
      exact .work hw hsame rfl
    · have hone : addedReviews S.world w' = [openReview i reason] := by
        rw [addedReviews, hadd, List.drop_left]
      rw [hone] at hs
      obtain ⟨d', hd, rfl⟩ := Option.map_eq_some_iff.mp hs
      have hd : deskStep S.desk (.insert k i reason) = some d' := hd
      have hrows : w'.store.db.reviews = d'.rows := by rw [hadd, S.shared, rows_of_insert hd]
      rw [Service.of_eq hrows]
      exact .reviewed hw hadd hd
  | desk l =>
    obtain ⟨hl, hs⟩ := Option.ite_none_left_eq_some.mp hs
    obtain ⟨d', hd, rfl⟩ := Option.map_eq_some_iff.mp hs
    exact .desk (by simpa using hl) hd rfl

/-! ## 3. The system does not read how far a review has come -/

/-- The review item as it was inserted. -/
def ReviewItem.blank (x : ReviewItem) : ReviewItem := openReview x.runItemId x.reason

def Db.blank (db : Db) : Db := { db with reviews := db.reviews.map ReviewItem.blank }

def Backend.blank (m : Backend) : Backend := { m with db := m.db.blank }

def World.blank (w : World σ η) : World σ η := { w with store := w.store.blank }

section Blank

variable (db : Db) (m : Backend)

theorem maybeCompleteRun_blank (r : RunId) (now : Timestamp) :
    maybeCompleteRun db.blank r now = (maybeCompleteRun db r now).blank := by
  simp only [maybeCompleteRun]
  rw [show remaining db.blank r = remaining db r from rfl]
  split <;> rfl

theorem abortOverBudget_blank (r : RunId) (limit : SpendLimit) (now : Timestamp) :
    abortOverBudget db.blank r limit now =
      ((abortOverBudget db r limit now).1.blank, (abortOverBudget db r limit now).2) := by
  simp only [abortOverBudget]
  rw [show db.blank.runsHit r (overBudget limit) = db.runsHit r (overBudget limit) from rfl]
  split <;> rfl

theorem finaliseRunItem_blank (rid : ItemId) (v : Loaded) (r : CompletionResult) :
    finaliseRunItem db.blank rid v r =
      ((finaliseRunItem db rid v r).1.blank, (finaliseRunItem db rid v r).2) := by
  simp only [finaliseRunItem]
  rw [show db.blank.itemsHit rid (fun row => row.status == .running) =
    db.itemsHit rid (fun row => row.status == .running) from rfl]
  split <;> rfl

theorem insertGrades_blank (rid : ItemId) (gs : List NewGrade) (review : Option ReviewReason) :
    insertGrades db.blank rid gs review = (insertGrades db rid gs review).blank := by
  cases review <;> simp [insertGrades, Db.blank, ReviewItem.blank, openReview]

theorem any_blank (rid : ItemId) : (db.blank.reviews.any fun x => x.runItemId == rid) =
    db.reviews.any fun x => x.runItemId == rid := by
  simp [Db.blank, Function.comp_def, ReviewItem.blank, openReview]

theorem stepRunItem_blank (cfg : Config) (c : Choice) (rid : ItemId) (v : Loaded) (pc : Pc) :
    stepRunItem cfg c rid v m.blank pc =
      ((stepRunItem cfg c rid v m pc).1.blank, (stepRunItem cfg c rid v m pc).2) := by
  cases pc with
  | maybeComplete ret => simp only [stepRunItem, Backend.blank, maybeCompleteRun_blank]
  | gradeCommit gs review =>
    simp only [stepRunItem, Backend.blank, insertGrades_blank]
    split <;> rfl
  | abortCheck r =>
    simp only [stepRunItem, Backend.blank, abortOverBudget_blank]
    split <;> rfl
  | finalise r =>
    simp only [stepRunItem, Backend.blank, finaliseRunItem_blank]
    split <;> rfl
  | reviewCheck gs reason =>
    simp only [stepRunItem, Backend.blank, any_blank]
    split <;> rfl
  | checkCancelled r =>
    simp only [stepRunItem]
    rw [show m.blank.db.runs = m.db.runs from rfl]
    split <;> rfl
  | gradeRead r =>
    simp only [stepRunItem]
    rw [show m.blank.db.grades = m.db.grades from rfl]
    split <;> rfl
  | complete a =>
    simp only [stepRunItem]
    split <;> rfl
  | judge r =>
    simp only [stepRunItem]
    split <;> rfl
  | _ => rfl

theorem executeRunItem_blank (cfg : Config) (c : Choice) (rid : ItemId) (p : Phase) :
    executeRunItem cfg c rid m.blank p =
      ((executeRunItem cfg c rid m p).1.blank, (executeRunItem cfg c rid m p).2) := by
  cases p with
  | start => rfl
  | «at» v pc => exact stepRunItem_blank m cfg c rid v pc

theorem insertRun_blank (payload : EvalRunCreate) (pairs : List (TaskId × EndpointId)) (r : RunId)
    (itemIds : List ItemId) (now : Timestamp) :
    insertRun db.blank payload pairs r itemIds now =
      (insertRun db payload pairs r itemIds now).map Db.blank := by
  simp only [insertRun]
  rw [show db.blank.runs = db.runs from rfl, show db.blank.items = db.items from rfl]
  split
  · rfl
  · cases db.runs.insertAll _ with
    | none => rfl
    | some runs =>
      cases db.items.insertAll _ with
      | none => rfl
      | some items => rfl

theorem stepHandler_blank (now : Timestamp) (x : Handler) :
    stepHandler m.blank now x = ((stepHandler m now x).1.blank, (stepHandler m now x).2) := by
  cases x with
  | createEnqueue pending => cases pending <;> rfl
  | replayReadRun rid r =>
    simp only [stepHandler]
    rw [show replayReadRun m.blank.db r = replayReadRun m.db r from rfl]
    split <;> rfl
  | _ => rfl

end Blank

theorem World.blank_afterExec {σ η : Type} [DecidableEq σ] {w : World σ η}
    (s : σ) (rid : ItemId) (m : Backend) (n : Next) :
    w.blank.afterExec s rid m.blank n = (w.afterExec s rid m n).blank := by
  cases n <;> rfl

/-- **Blanking the reviews commutes with every step of the system.** -/
theorem step_blank (cfg : Config) (w : World σ η) (l : Label σ η) :
    step cfg w.blank l = (step cfg w l).map World.blank := by
  cases l with
  | create h payload r itemIds now =>
    simp only [step]
    rw [show w.blank.handlers = w.handlers from rfl]
    split
    · rfl
    · split
      · rfl
      · rw [show w.blank.store.db = w.store.db.blank from rfl, insertRun_blank]
        cases insertRun w.store.db payload _ r itemIds now <;> rfl
  | cancel h r =>
    simp only [step]
    rw [show w.blank.handlers = w.handlers from rfl,
      show cancelRead w.blank.store.db r = cancelRead w.store.db r from rfl]
    split
    · rfl
    · split <;> rfl
  | replay h rid =>
    simp only [step]
    rw [show w.blank.handlers = w.handlers from rfl,
      show replayReadItem w.blank.store.db rid = replayReadItem w.store.db rid from rfl]
    split
    · rfl
    · split <;> rfl
  | handler h now =>
    simp only [step]
    rw [show w.blank.handlers = w.handlers from rfl]
    cases w.handlers h with
    | none => rfl
    | some x =>
      simp only [show w.blank.store = w.store.blank from rfl, stepHandler_blank]
      rfl
  | exec s c =>
    simp only [step]
    rw [show w.blank.workers = w.workers from rfl]
    cases w.workers s with
    | none => rfl
    | some e =>
      simp only [show w.blank.store = w.store.blank from rfl, executeRunItem_blank,
        World.blank_afterExec, Option.map_some]
  | drop h =>
    simp only [step]
    rw [show w.blank.handlers = w.handlers from rfl]
    split <;> rfl
  | crash s =>
    simp only [step]
    rw [show w.blank.workers = w.workers from rfl]
    split <;> rfl
  | deliver s rid =>
    simp only [step]
    rw [show w.blank.workers = w.workers from rfl,
      show w.blank.store.queue = w.store.queue from rfl]
    split <;> rfl
  | redeliver s rid =>
    simp only [step]
    rw [show w.blank.workers = w.workers from rfl, show w.blank.store.sent = w.store.sent from rfl]
    split <;> rfl

/-! ## 4. The two views of a service -/

/-- A service without its desk. -/
def Service.work (S : Service σ η κ) : World σ η := S.world.blank

/-- The step of the system a label is. -/
def workLabel (_ : Service σ η κ) : ServiceLabel σ η κ → Option (Label σ η)
  | .work l _ => some l
  | .desk _ => none

/-- The step of the desk a label is. -/
def deskLabel (cfg : Config) (S : Service σ η κ) : ServiceLabel σ η κ → Option (DeskLabel κ)
  | .work l k => (step cfg S.world l).bind fun w => (addedReviews S.world w).head?.map (insertOf k)
  | .desk l => some l

/-- What the workers see of a run. -/
def workView (tr : List (Service σ η κ × ServiceLabel σ η κ)) : List (World σ η × Label σ η) :=
  view Service.work workLabel tr

/-- What the desk sees of it. -/
def deskView (cfg : Config) (tr : List (Service σ η κ × ServiceLabel σ η κ)) :
    List (Desk κ × DeskLabel κ) :=
  view Service.desk (deskLabel cfg) tr

/-- An update of a review leaves what the system reads of it. -/
theorem blank_updateReview {reviews : Table ReviewId ReviewItem} {k : ReviewId} {st : ReviewStatus}
    {f : ReviewItem → ReviewItem} (hf : ∀ x, (f x).blank = x.blank) :
    (updateReview reviews k st f).1.rows.map (fun x => x.2.blank) =
      reviews.rows.map fun x => x.2.blank := by
  simp only [updateReview, Table.updateWhere, Table.mapRows, List.map_map]
  refine List.map_congr_left fun x _ => ?_
  simp only [Function.comp_apply]
  split
  · exact hf x.2
  · rfl

/-- The desk inserts no row and moves none to another item. -/
theorem blank_rows {l : DeskLabel κ} (hs : deskStep d l = some d') (hl : l.isInsert = false) :
    d'.rows.map ReviewItem.blank = d.rows.map ReviewItem.blank := by
  simp only [Desk.rows, List.map_map]
  cases deskStep_cases hs with
  | insert => exact absurd hl (by simp [DeskLabel.isInsert])
  | claim => exact blank_updateReview fun _ => rfl
  | resolve => exact blank_updateReview fun _ => rfl
  | read | drop => rfl

theorem work_step {l : ServiceLabel σ η κ} (hs : serviceStep cfg S l = some S') :
    (workLabel S l = none → S'.work = S.work) ∧
      ∀ l', workLabel S l = some l' → step cfg S.work l' = some S'.work := by
  cases serviceStep_cases hs with
  | work hw | reviewed hw =>
    refine ⟨fun h => absurd h (by simp [workLabel]), fun l' h => ?_⟩
    obtain rfl := Option.some.inj h
    rw [Service.work, step_blank, hw]
    rfl
  | desk hl hd hw =>
    refine ⟨fun _ => ?_, fun l' h => absurd h (by simp [workLabel])⟩
    have hrows := blank_rows hd hl
    rw [← S.shared] at hrows
    simp only [Service.work, hw, World.blank, Backend.blank, Db.blank, World.withReviews, hrows]

theorem desk_step {l : ServiceLabel σ η κ} (hs : serviceStep cfg S l = some S') :
    (deskLabel cfg S l = none → S'.desk = S.desk) ∧
      ∀ l', deskLabel cfg S l = some l' → deskStep S.desk l' = some S'.desk := by
  cases serviceStep_cases hs with
  | @work l k hw hsame hd =>
    have hnone : deskLabel cfg S (.work l k) = none := by
      simp [deskLabel, hw, addedReviews, hsame]
    rw [hnone]
    exact ⟨fun _ => hd, fun l' h => absurd h (by simp)⟩
  | @reviewed l k i reason hw hadd hd =>
    have hsome : deskLabel cfg S (.work l k) = some (.insert k i reason) := by
      simp [deskLabel, hw, addedReviews, hadd, insertOf, openReview]
    rw [hsome]
    refine ⟨fun h => absurd h (by simp), fun l' h => ?_⟩
    obtain rfl := Option.some.inj h
    exact hd
  | desk hl hd hw =>
    refine ⟨fun h => absurd h (by simp [deskLabel]), fun l' h => ?_⟩
    obtain rfl := Option.some.inj h
    exact hd

theorem work_of_run {tr : List (Service σ η κ × ServiceLabel σ η κ)}
    (h : Run (serviceStep cfg) Service.init tr S) :
    Run (step cfg) World.init (workView tr) S.work :=
  h.view fun _ _ _ hs => work_step hs

theorem desk_of_run {tr : List (Service σ η κ × ServiceLabel σ η κ)}
    (h : Run (serviceStep cfg) Service.init tr S) :
    Run deskStep Desk.init (deskView cfg tr) S.desk :=
  h.view fun _ _ _ hs => desk_step hs

/-- **Evaluation and review do not disturb each other.**  Whatever the workers, the requests and the
reviewers do, in any interleaving: up to the progress of the reviews the service goes through a run
of the system, with the same items, runs, grades, messages and artifacts; its reviews go through a
run of the desk, in which rows come from the graders only; and both are about the same rows. -/
theorem service_projects {tr : List (Service σ η κ × ServiceLabel σ η κ)}
    (h : Run (serviceStep cfg) Service.init tr S) :
    Run (step cfg) World.init (workView tr) S.work ∧
      Run deskStep Desk.init (deskView cfg tr) S.desk ∧
      S.world.store.db.reviews = S.desk.rows :=
  ⟨work_of_run h, desk_of_run h, S.shared⟩

/-! ## 5. Scores are between 0 and 1 -/

/-- The scores of grades are between 0 and 1. -/
def InUnit (gs : List NewGrade) : Prop := ∀ g ∈ gs, ∀ q, g.value = some q → q.InUnit

theorem inUnit_toGrade {g : DeterministicGrade} (h : g.score = 0 ∨ g.score = 1000) :
    InUnit [g.toGrade] := by
  intro g' hg q hq
  obtain rfl := List.mem_singleton.mp hg
  obtain rfl := Option.some.inj hq
  rcases h with h | h <;> simp [Score.InUnit, h]

theorem matchGrade_score (matched : Bool) (rationale : String) :
    (matchGrade matched rationale).score = 0 ∨ (matchGrade matched rationale).score = 1000 := by
  cases matched
  · exact Or.inl rfl
  · exact Or.inr rfl

/-- What a computation that succeeds has gone on with. -/
theorem exists_of_bind {ε α β : Type} {x : Except ε α} {f : α → Except ε β} {b : β}
    (h : x >>= f = .ok b) : ∃ a, f a = .ok b := by
  cases x with
  | error e => exact absurd h (by simp [bind, Except.bind])
  | ok a => exact ⟨a, h⟩

theorem gradeRegex_score {lib : Libraries} {output : String} {pattern : Py.Json}
    {config : Option (List (Py.Str × Py.Json))} {g : DeterministicGrade}
    (h : gradeRegex lib output pattern config = .ok g) : g.score = 0 ∨ g.score = 1000 := by
  simp only [gradeRegex] at h
  split at h
  · split at h <;>
    · obtain ⟨matched, hg⟩ := exists_of_bind h
      obtain rfl := Except.ok.inj hg
      exact matchGrade_score _ _
  · exact absurd h (by simp)

theorem runDeterministic_score {lib : Libraries} {task : Task} {output : String}
    {g : DeterministicGrade} (h : runDeterministic lib task output = .ok (some g)) :
    g.score = 0 ∨ g.score = 1000 := by
  simp only [runDeterministic] at h
  cases ht : task.graderType with
  | llmJudge => rw [ht] at h; exact absurd h (by simp)
  | exactMatch =>
    simp only [ht] at h
    split at h
    · exact absurd h (by simp)
    · obtain rfl := Option.some.inj (Except.ok.inj h)
      exact matchGrade_score _ _
  | regex =>
    simp only [ht] at h
    split at h
    · cases hg : gradeRegex lib output (regexPattern task) (some (task.graderConfig.getD [])) with
      | error e => rw [hg] at h; exact absurd h (by simp [Except.map])
      | ok g' =>
        rw [hg] at h
        obtain rfl := Option.some.inj (Except.ok.inj h)
        exact gradeRegex_score hg
    · exact absurd h (by simp)

/-- The graders score between 0 and 1. -/
theorem gradeRunItem_inUnit {lib : Libraries} {settings : Settings} {task : Task} {output : String}
    {judge : JudgeOutcome} {gs : List NewGrade} {review : Option ReviewReason}
    (h : gradeRunItem lib settings task output judge = .graded gs review) : InUnit gs := by
  have happ : ∀ {a b : List NewGrade}, InUnit a → InUnit b → InUnit (a ++ b) := fun ha hb g hg =>
    (List.mem_append.mp hg).elim (ha g) (hb g)
  have hdet : ∀ {d}, runDeterministic lib task output = .ok d →
      InUnit (d.toList.map (·.toGrade)) := by
    intro d hd
    cases d with
    | none => exact fun g hg => absurd hg (by simp)
    | some g => exact inUnit_toGrade (runDeterministic_score hd)
  have hverdict : ∀ v : JudgeVerdict, InUnit [v.toGrade (thousandths v.overall.value)] := by
    intro v g hg q hq
    obtain rfl := List.mem_singleton.mp hg
    obtain rfl := Option.some.inj hq
    exact v.overall.score_inUnit
  cases gradeRunItem_cases h with
  | unjudged hd => exact hdet hd
  | unparseable hd =>
    -- the grade of a failed judge has no score
    refine happ (hdet hd) fun g hg q hq => ?_
    obtain rfl := List.mem_singleton.mp hg
    exact absurd hq (by simp [NewGrade.value, failedJudgeGrade])
  | judged => exact hverdict _
  | compared hd => exact happ (hdet hd) (hverdict _)

/-- Grades in the table and grades on their way to it. -/
structure ScoresInUnit (w : World σ η) : Prop where
  stored : ∀ g ∈ w.store.db.grades, ∀ q, g.value = some q → q.InUnit
  graded : ∀ s i v pc gs review, w.workers s = some ⟨i, .at v pc⟩ →
    pc.graded = some (gs, review) → InUnit gs

theorem scoresInUnit_step {lib : Libraries} {settings : Settings} {l : Label σ η}
    (hI : ScoresInUnit w) (hj : Judges lib settings w l) (hs : step cfg w l = some w') :
    ScoresInUnit w' where
  stored := by
    rcases step_grades hs with ⟨hg, -⟩ | ⟨s, c, i, v, gs, review, -, he, -, hdb⟩
    · rw [hg]
      exact hI.stored
    · rw [hdb]
      intro g hg
      rcases List.mem_append.mp hg with hg | hg
      · exact hI.stored g hg
      · obtain ⟨g', hg', rfl⟩ := List.mem_map.mp hg
        exact hI.graded s i v _ gs review he rfl g' hg'
  graded s i v pc gs review he' hpc := by
    have hfirst : pc.isFirst = false := by
      cases pc <;> first | rfl | exact absurd hpc (by simp [Pc.graded])
    rcases step_pc hs he' hfirst with ⟨hw, -⟩ | ⟨c, pc₀, rfl, hw, hstep⟩
    · exact hI.graded s i v pc gs review hw hpc
    · cases hstep with
      | agreed hc | disagreed hc =>
        obtain ⟨rfl, -⟩ := Prod.mk.inj (Option.some.inj hpc)
        obtain ⟨judge, hjudge⟩ := hj s c i v _ rfl hw
        exact gradeRunItem_inUnit (hjudge.symm.trans hc)
      | reviewed | unreviewed =>
        obtain ⟨rfl, -⟩ := Prod.mk.inj (Option.some.inj hpc)
        exact hI.graded s i v _ _ _ hw rfl
      | _ => exact absurd hpc (by simp [Pc.graded])

theorem scoresInUnit_of_run {lib : Libraries} {settings : Settings}
    {tr : List (World σ η × Label σ η)} (h : Run (step cfg) World.init tr w)
    (hj : Along (Judges lib settings) tr) : ScoresInUnit w :=
  h.invariant (fun _ _ _ hI hj hs => scoresInUnit_step hI hj hs) hj
    ⟨fun g hg => absurd hg (by simp [World.init, Db.empty]),
      fun _ _ _ _ _ _ he => absurd he (by simp [World.init])⟩

/-! ## 6. The leaderboard of a service -/

theorem Score.between {q : Score} (h : q.InUnit) : Sql.Between 0 (1 : ℕ) q.numeric := by
  cases q with
  | nan => exact absurd h id
  | milli n =>
    refine ⟨(n : ℚ) / 1000, rfl, ?_, ?_⟩
    · have : (0 : ℚ) ≤ n := by exact_mod_cast h.1
      positivity
    · rw [div_le_iff₀ (by norm_num)]
      have : (n : ℚ) ≤ 1000 := by exact_mod_cast h.2
      simpa using this

/-- Rows with scores between 0 and 1 have such a mean and such a pass rate. -/
theorem means_between {rows : List Effective} (h : ∀ e ∈ rows, ∀ q, e.score = some q → q.InUnit) :
    (∀ m, meanScore rows = some m → Sql.Between 0 (1 : ℕ) m) ∧
      ∀ m, passRate rows = some m → Sql.Between 0 (1 : ℕ) m := by
  constructor
  · intro m hm
    obtain ⟨a, ha, rfl⟩ := Option.map_eq_some_iff.mp hm
    refine Sql.round_between 3 (Sql.avg_between (fun x hx => ?_) ha)
    obtain ⟨e, he, hx⟩ := List.mem_map.mp hx
    obtain ⟨q, hq, rfl⟩ := Option.map_eq_some_iff.mp hx
    exact Score.between (h e he q hq)
  · intro m hm
    obtain ⟨a, ha, rfl⟩ := Option.map_eq_some_iff.mp hm
    refine Sql.round_between 3 (Sql.avg_between (fun x hx => ?_) ha)
    obtain ⟨e, he, hx⟩ := List.mem_map.mp hx
    obtain ⟨q, hq, rfl⟩ := Option.map_eq_some_iff.mp hx
    split
    · exact ⟨1, rfl, by norm_num, by norm_num⟩
    · exact ⟨0, rfl, le_refl 0, by norm_num⟩

/-- A score of the relation is the label of a resolved review or the score of a grade. -/
theorem score_of_effective {cat : Catalog} {db : Db} {filters : Task → Bool} {e : Effective}
    {q : Score} (h : e ∈ effective cat db filters) (hq : e.score = some q) :
    (∃ x ∈ db.reviews, x.reviewerLabel = some q) ∨ ∃ g ∈ db.grades, g.value = some q := by
  obtain ⟨⟨⟨⟨⟨ri, t⟩, rv⟩, jg⟩, dg⟩, hx, rfl⟩ := List.mem_map.mp h
  have hdg := List.mem_of_mem_filter hx
  have hjg := Sql.mem_of_mem_leftJoin hdg
  have hrv := Sql.mem_of_mem_leftJoin hjg
  simp only [Effective.of, Option.or_eq_some_iff] at hq
  rcases hq with hl | ⟨-, hj | ⟨-, hd⟩⟩
  · obtain ⟨y, rfl, hy⟩ := Option.bind_eq_some_iff.mp hl
    exact Or.inl ⟨y, Sql.mem_right_of_mem_leftJoin hrv, hy⟩
  · obtain ⟨g, rfl, hg⟩ := Option.bind_eq_some_iff.mp hj
    exact Or.inr ⟨g, Sql.mem_right_of_mem_leftJoin hjg, hg⟩
  · obtain ⟨g, rfl, hg⟩ := Option.bind_eq_some_iff.mp hd
    exact Or.inr ⟨g, Sql.mem_right_of_mem_leftJoin hdg, hg⟩

section Board

variable {lib : Libraries} {settings : Settings}
  {tr : List (Service σ η κ × ServiceLabel σ η κ)}

/-- The labels of the desk are between 0 and 1. -/
theorem labels_inUnit {b : List (Desk κ × DeskLabel κ)} (h : Run deskStep Desk.init b d) :
    ∀ x ∈ d.rows, ∀ q, x.reviewerLabel = some q → q.InUnit := by
  intro x hx q hq
  obtain ⟨⟨k, row⟩, hmem, rfl⟩ := List.mem_map.mp hx
  have hrec := recorded_of_run h k
  rw [(Table.mem_rows_iff _).mp hmem] at hrec
  cases hrec with
  | «open» _ _ _ hcols | claimed _ _ _ hcols => exact absurd (hcols.2.2.symm.trans hq) (by simp)
  | @resolved _ _ _ y _ _ hr hcols =>
    obtain rfl := Option.some.inj (hcols.2.2.symm.trans hq)
    exact y.score_inUnit

/-- **The board stays between 0 and 1.**  In every state of the service, with duplicate deliveries,
deaths of workers and reviewers at work: every row of the board converts, and its mean score and its
pass rate are numbers between 0 and 1. -/
theorem board_in_unit (h : Run (serviceStep cfg) Service.init tr S)
    (hj : Along (Judges lib settings) (workView tr))
    (collation : String → String → Bool) (taskSetId : Option TaskSetId) (capability : Option String) :
    ∀ r ∈ getLeaderboard collation cfg.catalog S.world.store.db taskSetId capability,
      r.Converts ∧ (∀ m, r.meanScore = some m → Sql.Between 0 (1 : ℕ) m) ∧
        ∀ m, r.passRate = some m → Sql.Between 0 (1 : ℕ) m := by
  have hgrades := (scoresInUnit_of_run (work_of_run h) hj).stored
  have hlabels := labels_inUnit (desk_of_run h)
  rw [← S.shared] at hlabels
  intro r hr
  have hwork : S.work.SucceededComplete := complete_of_run (work_of_run h)
  have hcomplete : S.world.SucceededComplete := hwork
  refine ⟨leaderboard_row_converts hcomplete hr, ?_⟩
  obtain ⟨g, hg, rfl⟩ := List.mem_map.mp ((Sql.orderBy_perm _ _).mem_iff.mp hr)
  obtain ⟨-, hmem⟩ := Sql.mem_groupBy hg
  refine means_between fun e he q hq => ?_
  obtain ⟨x, hx, rfl⟩ := List.mem_map.mp he
  have hjoin := Sql.mem_of_mem_join (List.mem_of_mem_filter (hmem x hx))
  rcases score_of_effective hjoin hq with ⟨y, hy, hq⟩ | ⟨y, hy, hq⟩
  · exact hlabels y hy q hq
  · exact hgrades y hy q hq

/-- Uniqueness does not depend on how far a review has come. -/
theorem uniqueRows_of_blank {db : Db} (h : db.blank.UniqueRows) : db.UniqueRows where
  grades := h.grades
  reviews i := by
    have := h.reviews i
    rwa [Db.blank, List.countP_map] at this

theorem uniqueRows_of_run (h : Run (serviceStep cfg) Service.init tr S)
    (hj : Along (Judges lib settings) (workView tr)) (hu : Along Serial (workView tr)) :
    S.world.store.db.UniqueRows :=
  uniqueRows_of_blank ((work_of_run h).invariant (I := Unrivalled)
    (fun _ _ _ hA hok hs => unrivalled_step hA hok.1 hok.2 hs) (hj.and hu) unrivalled_init).rows

/-- A resolved review decides its item's score. -/
theorem effectiveScore_resolved {db : Db} (hdb : db.UniqueRows) {x : ReviewItem} (hx : x ∈ db.reviews)
    (hst : x.status = .resolved) {q : Score} (hq : x.reviewerLabel = some q) :
    db.effectiveScore x.runItemId = some q := by
  have hmem : x ∈ db.reviews.filter fun y => y.runItemId == x.runItemId :=
    List.mem_filter.mpr ⟨hx, by simp⟩
  rw [Sql.filter_eq_find? (hdb.reviews x.runItemId), Option.mem_toList] at hmem
  have hreview : db.reviewOf x.runItemId = some x := hmem
  simp [Db.effectiveScore, hreview, hst, hq]

/-- **The board scores by the documented precedence, and a label sticks.**  In every state of a
service whose grading calls do not overlap: the relation behind the board has one row for each
succeeded item that passes the filters, with the score by precedence; and from the moment a reviewer
has resolved a review on, the score of its item is the reviewer's label. -/
theorem board_of_service (h : Run (serviceStep cfg) Service.init tr S)
    (hj : Along (Judges lib settings) (workView tr)) (hu : Along Serial (workView tr)) :
    (∀ filters, effective cfg.catalog S.world.store.db filters =
      (S.world.store.db.selected cfg.catalog filters).map S.world.store.db.effectiveRow) ∧
    ∀ k x, x ∈ (deskView cfg tr).filterMap (resolvedLabel k) →
      ∃ row, S.desk.reviews.get k = some row ∧
        S.world.store.db.effectiveScore row.runItemId = some x.score := by
  have hdb := uniqueRows_of_run h hj hu
  refine ⟨fun filters => effective_eq hdb, fun k x hx => ?_⟩
  have hrec := recorded_of_run (desk_of_run h) k
  generalize hrow : S.desk.reviews.get k = row at hrec
  cases hrec with
  | absent _ hr | «open» _ _ hr | claimed _ _ hr => rw [hr] at hx; exact absurd hx (by simp)
  | @resolved row _ _ y hst _ hr hcols =>
    rw [hr, List.mem_singleton] at hx
    subst hx
    refine ⟨row, rfl, effectiveScore_resolved hdb ?_ hst hcols.2.2⟩
    rw [S.shared]
    exact List.mem_map.mpr ⟨(k, row), (Table.mem_rows_iff _).mpr hrow, rfl⟩

end Board

/-! ### A review, from the grading to the board -/

/-- One task with both graders. -/
def comparedConfig : Config :=
  { smallConfig 1 1 5000000 with
    catalog := { (smallConfig 1 1 5000000).catalog with tasks := ⟨[(0, comparedTask)], by simp⟩ } }

/-- The provider answers, and the judge is undecided. -/
def answersUndecided : Choice :=
  { answers with grading := gradeRunItem rubricLibraries {} comparedTask "4" undecided }

/-- Whoever is judged has the task and the answer above. -/
def judgesUndecided (w : World σ η) (l : Label σ η) : Bool :=
  match l with
  | .exec s c =>
    match w.workers s with
    | some ⟨_, .at v (.judge r)⟩ =>
      v.task == comparedTask && r.text == "4" &&
        c.grading == gradeRunItem rubricLibraries {} comparedTask "4" undecided
    | _ => true
  | _ => true

theorem judges_of_undecided {σ η : Type} {w : World σ η}
    {l : Label σ η} (h : judgesUndecided w l = true) :
    Judges rubricLibraries {} w l := by
  rintro s c i v r rfl he
  simp only [judgesUndecided, he, Bool.and_eq_true, beq_iff_eq] at h
  obtain ⟨⟨ht, hr⟩, hc⟩ := h
  exact ⟨undecided, by rw [hc, ht, hr]⟩

/-- The item is graded. -/
def gradedUndecided (s : σ) (h : η) : List (Label σ η) :=
  launch h 1 ++ [.deliver s 0] ++ execs s answersUndecided 12

def fourFifths : UnitFloat := .num (4 / 5) (by decide +kernel) (by decide +kernel)

/-- A reviewer claims and resolves its review. -/
def reviewedOnce (s : σ) (h : η) (k : κ) : List (ServiceLabel σ η κ) :=
  (gradedUndecided s h).map (.work · 0) ++
    [.desk (.claim k 0 3), .desk (.read k), .desk (.resolve k 0 ⟨fourFifths, none⟩ 5)]

theorem reviewedOnce_run : ∃ (tr : List (Service (Fin 1) (Fin 1) (Fin 1) ×
    ServiceLabel (Fin 1) (Fin 1) (Fin 1))) (S : Service (Fin 1) (Fin 1) (Fin 1)),
    Run (serviceStep comparedConfig) Service.init tr S ∧
      Along (Judges rubricLibraries {}) (workView tr) ∧ Along Serial (workView tr) ∧
      S.desk.statusOf 0 = some .resolved ∧
      (deskView comparedConfig tr).filterMap (resolvedLabel 0) =
        [fourFifths] := by
  obtain ⟨tr, S, hrun, -, htest⟩ := exists_run_of_play (serviceStep comparedConfig)
    (Service.init : Service (Fin 1) (Fin 1) (Fin 1)) (fun _ _ => true)
    (reviewedOnce 0 0 0)
    (fun tr S => (workView tr).all (fun p => judgesUndecided p.1 p.2 && decide (Serial p.1 p.2)) &&
      S.desk.statusOf 0 == some .resolved &&
      (deskView comparedConfig tr).filterMap (resolvedLabel 0) ==
        [fourFifths])
    (by decide +kernel)
  simp only [Bool.and_eq_true, List.all_eq_true, beq_iff_eq, decide_eq_true_eq] at htest
  obtain ⟨⟨hwork, hst⟩, hlabel⟩ := htest
  exact ⟨tr, S, hrun, fun p hp => judges_of_undecided (hwork p hp).1, fun p hp => (hwork p hp).2,
    hst, hlabel⟩

/-- The system has gone through the labels of the workers, and the review is resolved. -/
theorem service_projects_small : ∃ S : Service (Fin 1) (Fin 1) (Fin 1),
    (∃ tr, Run (step comparedConfig) World.init tr S.work) ∧
      (∃ b, Run deskStep Desk.init b S.desk) ∧ S.world.store.db.reviews = S.desk.rows ∧
      S.desk.statusOf 0 = some .resolved := by
  obtain ⟨tr, S, hrun, -, -, hst, -⟩ := reviewedOnce_run
  obtain ⟨hwork, hdesk, hrows⟩ := service_projects hrun
  exact ⟨S, ⟨_, hwork⟩, ⟨_, hdesk⟩, hrows, hst⟩

/-- The board of that service. -/
theorem board_in_unit_small : ∃ S : Service (Fin 1) (Fin 1) (Fin 1),
    S.desk.statusOf 0 = some .resolved ∧
      ∀ r ∈ getLeaderboard (fun a b => decide (a ≤ b)) comparedConfig.catalog S.world.store.db none
        none, r.Converts := by
  obtain ⟨tr, S, hrun, hj, -, hst, -⟩ := reviewedOnce_run
  exact ⟨S, hst, fun r hr => (board_in_unit hrun hj _ none none r hr).1⟩

/-- The reviewer says 0.8, and the item scores that. -/
theorem board_of_service_small : ∃ (S : Service (Fin 1) (Fin 1) (Fin 1)) (row : ReviewItem),
    S.desk.reviews.get 0 = some row ∧
      S.world.store.db.effectiveScore row.runItemId = some (.milli 800) := by
  obtain ⟨tr, S, hrun, hj, hu, -, hlabel⟩ := reviewedOnce_run
  obtain ⟨row, hrow, hscore⟩ := (board_of_service hrun hj hu).2 0 _
    (hlabel ▸ List.mem_singleton.mpr rfl)
  exact ⟨S, row, hrow, hscore.trans (by decide +kernel)⟩

end EvalHarness
