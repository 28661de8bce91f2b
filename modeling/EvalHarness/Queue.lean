/-
# The review queue as a reviewer sees it (`list_review_queue`, `review_queue_stats`)

The listing joins the reviews with their items and tasks, reads the grades of those items in a second
query and an artifact for each review from Redis.  Between these reads the workers go on.

`review_queue_listing` says what a reviewer gets, whatever happens between the reads: the oldest
reviews of the status asked for, none left out but for the limit, each with the model's output and
with the two grades it was opened for.  `review_statistics` says that the counts are those of the
table, and that the mean time to resolve is the mean over what reviewers did.

Left out are the conversions of a numeric into a float, and `EXTRACT`: a timestamp is a number of
microseconds here, and the mean is taken in exact arithmetic.
-/
import EvalHarness.Artifacts
import EvalHarness.Service
import EvalHarness.Lib.PyDict
import Mathlib.Data.Prod.Lex

namespace EvalHarness

open Lts
open Py (Str Dict Codec str)
open Redis (getArtifact)

/-! ## 1. The handlers -/

/-- A grade as it is shown. -/
abbrev GradeRead := NewGrade

structure ReviewQueueItem where
  reviewItemId : ReviewId
  runItemId : ItemId
  reason : ReviewReason
  status : ReviewStatus
  capability : String
  prompt : String
  expectedOutput : Option String
  modelOutput : Option Str
  grades : List GradeRead
  createdAt : Timestamp
  deriving DecidableEq

/-- A row of the first query. -/
structure QueueRow where
  id : ReviewId
  review : ReviewItem
  itemId : ItemId
  item : RunItem
  taskId : TaskId
  task : Task

/-- What `ORDER BY created_at, id` compares. -/
def queueKey (created : ReviewId → Timestamp) (k : ReviewId) : Timestamp ×ₗ ReviewId :=
  toLex (created k, k)

/-- `if capability:`, and the condition on it. -/
def wanted (capability : Option String) (task : Task) : Bool :=
  match capability with
  | none => true
  | some capability => capability == "" || task.capability == capability

/-- `SELECT .. FROM review_item JOIN run_item JOIN task WHERE ..`. -/
def queueRows (cat : Catalog) (reviews : Table ReviewId ReviewItem) (items : Table ItemId RunItem)
    (status : ReviewStatus) (capability : Option String) : List QueueRow :=
  let joined := Sql.join (fun x t => t.1 == x.2.2.taskId)
    (Sql.join (fun rv ri => ri.1 == rv.2.runItemId) reviews.rows items.rows) cat.tasks.rows
  (joined.filter fun x => x.1.1.2.status == status && wanted capability x.2.2).map fun x =>
    ⟨x.1.1.1, x.1.1.2, x.1.2.1, x.1.2.2, x.2.1, x.2.2⟩

/-- The rows of the first query, in their order and up to the limit. -/
def queuePage (created : ReviewId → Timestamp) (limit : Nat) (rows : List QueueRow) : List QueueRow :=
  (Sql.orderBy (fun x y => decide (queueKey created x.id ≤ queueKey created y.id)) rows).take limit

/-- `grades_by_item`; `order` is how the second query sorts rows of one `created_at`. -/
def gradesByItem (order : Sql.TieOrder Grade) (grades : List Grade) (itemIds : List ItemId) :
    Dict ItemId (List Grade) :=
  if itemIds = [] then Table.empty
  else Dict.gather [] (fun gs g => gs ++ [g]) Table.empty
    ((order.rows (grades.filter fun g => itemIds.contains g.runItemId)).map fun g => (g.runItemId, g))

/-- The entry of a row. -/
def queueItem (created : ReviewId → Timestamp) (grades : Dict ItemId (List Grade)) (x : QueueRow)
    (output : Option Str) : ReviewQueueItem :=
  { reviewItemId := x.id, runItemId := x.itemId, reason := x.review.reason
    status := x.review.status, capability := x.task.capability, prompt := x.task.prompt
    expectedOutput := x.task.expectedOutput, modelOutput := output
    grades := ((grades.get x.itemId).getD []).map (·.toNewGrade), createdAt := created x.id }

/-- `list_review_queue`.  The first query sees `reviews` and `items`, the second `grades`, and the GET
for a review the database `redis` has for it; `none` when an artifact cannot be read. -/
def listReviewQueue (codec : Codec) (ids : Uuids) (created : ReviewId → Timestamp)
    (order : Sql.TieOrder Grade) (cat : Catalog) (reviews : Table ReviewId ReviewItem)
    (items : Table ItemId RunItem) (grades : List Grade) (redis : ReviewId → Redis)
    (status : ReviewStatus) (capability : Option String) (limit : Nat) :
    Option (List ReviewQueueItem) :=
  let rows := queuePage created limit (queueRows cat reviews items status capability)
  let byItem := gradesByItem order grades (rows.map QueueRow.itemId)
  rows.mapM fun x =>
    ((getArtifact codec ids (redis x.id) x.itemId).toOption.bind outputOf).map
      (queueItem created byItem x)

/-! ## 2. The rows -/

variable {cat : Catalog} {reviews : Table ReviewId ReviewItem} {items : Table ItemId RunItem}
  {created : ReviewId → Timestamp} {status : ReviewStatus} {capability : Option String} {limit : Nat}

/-- The row says what the tables say. -/
structure QueueRow.Stored (cat : Catalog) (reviews : Table ReviewId ReviewItem)
    (items : Table ItemId RunItem) (x : QueueRow) : Prop where
  review : reviews.get x.id = some x.review
  itemId : x.review.runItemId = x.itemId
  item : items.get x.itemId = some x.item
  task : cat.tasks.get x.item.taskId = some x.task

/-- The first query wants the row. -/
structure QueueRow.Selected (status : ReviewStatus) (capability : Option String) (x : QueueRow) :
    Prop where
  status : x.review.status = status
  wanted : wanted capability x.task = true

/-- A row of the query is a review that is wanted, with its item and task. -/
theorem mem_queueRows {x : QueueRow} (h : x ∈ queueRows cat reviews items status capability) :
    x.Stored cat reviews items ∧ x.Selected status capability := by
  obtain ⟨⟨⟨⟨k, rv⟩, i, ri⟩, t, task⟩, hx, rfl⟩ := List.mem_map.mp h
  obtain ⟨hjoin, hcond⟩ := List.mem_filter.mp hx
  obtain ⟨hpair, htask, ht⟩ := Sql.mem_join.mp hjoin
  obtain ⟨hreview, hitem, hi⟩ := Sql.mem_join.mp hpair
  obtain rfl : i = rv.runItemId := by simpa using hi
  obtain rfl : t = ri.taskId := by simpa using ht
  simp only [Bool.and_eq_true, beq_iff_eq] at hcond
  exact ⟨⟨(Table.mem_rows_iff _).mp hreview, rfl, (Table.mem_rows_iff _).mp hitem,
    (Table.mem_rows_iff _).mp htask⟩, ⟨hcond.1, hcond.2⟩⟩

theorem queueRows_of_stored {x : QueueRow} (hx : x.Stored cat reviews items)
    (hs : x.Selected status capability) : ∃ y ∈ queueRows cat reviews items status capability,
      y.id = x.id := by
  refine ⟨⟨x.id, x.review, x.itemId, x.item, x.item.taskId, x.task⟩, List.mem_map.mpr
    ⟨(((x.id, x.review), (x.itemId, x.item)), (x.item.taskId, x.task)), List.mem_filter.mpr ⟨?_, ?_⟩,
      rfl⟩, rfl⟩
  · exact Sql.mem_join.mpr ⟨Sql.mem_join.mpr ⟨(Table.mem_rows_iff _).mpr hx.review,
      (Table.mem_rows_iff _).mpr hx.item, by simp [hx.itemId]⟩, (Table.mem_rows_iff _).mpr hx.task,
      by simp⟩
  · simp [hs.status, hs.wanted]

theorem nodup_queueRows :
    ((queueRows cat reviews items status capability).map QueueRow.id).Nodup := by
  have hitems : ∀ x ∈ reviews.rows, (items.rows.countP fun ri => ri.1 == x.2.runItemId) ≤ 1 :=
    fun x _ => items.countP_key_le_one _
  have htasks : ∀ x ∈ Sql.join (fun (rv : ReviewId × ReviewItem) (ri : ItemId × RunItem) =>
      ri.1 == rv.2.runItemId) reviews.rows items.rows,
      (cat.tasks.rows.countP fun t => t.1 == x.2.2.taskId) ≤ 1 := fun x _ =>
    cat.tasks.countP_key_le_one _
  have hsub := ((Sql.map_fst_join_sublist htasks).map Prod.fst).trans
    (Sql.map_fst_join_sublist hitems)
  have hids := (hsub.map Prod.fst).nodup reviews.nodup
  refine List.Sublist.nodup ?_ hids
  rw [queueRows, List.map_map, List.map_map, List.map_map]
  exact List.filter_sublist.map _

/-! ## 3. The page and the grades -/

theorem mem_queuePage {rows : List QueueRow} {x : QueueRow} (h : x ∈ queuePage created limit rows) :
    x ∈ rows :=
  (Sql.orderBy_perm _ _).mem_iff.mp (List.mem_of_mem_take h)

section Page

variable {rows : List QueueRow}

theorem queueKey_trans (x y z : QueueRow)
    (h : decide (queueKey created x.id ≤ queueKey created y.id) = true)
    (h' : decide (queueKey created y.id ≤ queueKey created z.id) = true) :
    decide (queueKey created x.id ≤ queueKey created z.id) = true := by
  simp only [decide_eq_true_eq] at *
  exact h.trans h'

theorem queueKey_total (x y : QueueRow) :
    (decide (queueKey created x.id ≤ queueKey created y.id) ||
      decide (queueKey created y.id ≤ queueKey created x.id)) = true := by
  simpa using le_total (queueKey created x.id) (queueKey created y.id)

theorem queueKey_injective : Function.Injective (queueKey created) := fun _ _ h =>
  (Prod.mk.inj (toLex.injective h)).2

/-- The oldest comes first. -/
theorem queuePage_sorted (hnd : (rows.map QueueRow.id).Nodup) :
    (queuePage created limit rows).Pairwise fun x y => queueKey created x.id < queueKey created y.id := by
  have hsorted : (queuePage created limit rows).Pairwise
      fun x y => decide (queueKey created x.id ≤ queueKey created y.id) = true :=
    (Sql.orderBy_pairwise queueKey_trans queueKey_total rows).take
  have hids : (queuePage created limit rows).Pairwise fun x y => x.id ≠ y.id := by
    have hperm := (Sql.orderBy_perm (fun x y => decide (queueKey created x.id ≤ queueKey created y.id))
      rows).map QueueRow.id
    exact (List.pairwise_map.mp (hperm.nodup_iff.mpr hnd)).take
  exact (hsorted.and hids).imp fun ⟨hle, hne⟩ =>
    lt_of_le_of_ne (of_decide_eq_true hle) fun h => hne (queueKey_injective h)

/-- What is left out is younger than a full page. -/
theorem queuePage_full {x : QueueRow} (hx : x ∈ rows)
    (hout : x.id ∉ (queuePage created limit rows).map QueueRow.id) :
    (queuePage created limit rows).length = limit ∧
      ∀ y ∈ queuePage created limit rows, queueKey created y.id < queueKey created x.id := by
  have hnot : x ∉ queuePage created limit rows := fun h => hout (List.mem_map_of_mem h)
  obtain ⟨hlen, hle⟩ := Sql.limit_of_not_mem queueKey_trans queueKey_total hx hnot
  refine ⟨hlen, fun y hy => lt_of_le_of_ne (of_decide_eq_true (hle y hy)) fun h => hout ?_⟩
  exact queueKey_injective h ▸ List.mem_map_of_mem hy

end Page

/-- An item on the page has its own grades, all of them. -/
theorem gradesByItem_get {order : Sql.TieOrder Grade} {grades : List Grade} {itemIds : List ItemId}
    {i : ItemId} (hi : i ∈ itemIds) :
    (((gradesByItem order grades itemIds).get i).getD []).Perm
      (grades.filter fun g => g.runItemId == i) := by
  have hget : ((gradesByItem order grades itemIds).get i).getD [] =
      (order.rows (grades.filter fun g => itemIds.contains g.runItemId)).filter
        fun g => g.runItemId == i := by
    rw [gradesByItem, if_neg (List.ne_nil_of_mem hi), Dict.get_gather_append]
    simp only [Dict.rowsOf, List.filter_map, List.map_map, Function.comp_def, List.map_id']
    split
    · rename_i h
      rw [h, Option.getD_none]
    · rw [Option.getD_some]
  rw [hget]
  refine ((order.perm _).filter _).trans (List.Perm.of_eq ?_)
  rw [List.filter_filter]
  refine List.filter_congr fun g _ => ?_
  by_cases hg : g.runItemId = i <;> simp [hg, hi]

/-! ## 4. What stands behind a review -/

variable {σ η κ : Type} [DecidableEq σ] [DecidableEq η] [DecidableEq κ] {cfg : Config}
  {lib : Libraries} {settings : Settings} {w w' : World σ η}

/-- Two of the grades are the reason for the review. -/
def Justified (settings : Settings) (gs : List NewGrade) (reason : ReviewReason) : Prop :=
  ∃ g ∈ gs, ∃ j ∈ gs, g.grader = .deterministic ∧ j.grader = .llmJudge ∧
    ∃ d x, g.score = some d ∧ j.score = some x ∧
      reviewItemForDisagreement settings d x = .ok (some reason)

theorem Justified.mono {gs gs' : List NewGrade} {reason : ReviewReason}
    (h : Justified settings gs reason) (hsub : ∀ g ∈ gs, g ∈ gs') : Justified settings gs' reason := by
  obtain ⟨g, hg, j, hj, hrest⟩ := h
  exact ⟨g, hsub g hg, j, hsub j hj, hrest⟩

theorem gradeRunItem_justified {task : Task} {output : String} {judge : JudgeOutcome}
    {gs : List NewGrade} {reason : ReviewReason}
    (h : gradeRunItem lib settings task output judge = .graded gs (some reason)) :
    Justified settings gs reason := by
  cases gradeRunItem_cases h with
  | @compared v g _ _ _ _ hc =>
    exact ⟨g.toGrade, by simp, v.toGrade (thousandths v.overall.value), by simp, rfl, rfl,
      g.score, thousandths v.overall.value, rfl, rfl, hc⟩

/-- A review has its item, an artifact and the grades it was opened for. -/
structure Backed (settings : Settings) (w : World σ η) : Prop where
  item : ∀ x ∈ w.store.db.reviews, (w.store.db.items.get x.runItemId).isSome = true
  artifact : ∀ x ∈ w.store.db.reviews, (w.store.artifacts ⟨x.runItemId⟩).isSome = true
  justified : ∀ x ∈ w.store.db.reviews,
    Justified settings ((gradesOf w.store.db x.runItemId).map (·.toNewGrade)) x.reason
  graded : ∀ s i v pc gs reason, w.workers s = some ⟨i, .at v pc⟩ →
    pc.graded = some (gs, some reason) → Justified settings gs reason

theorem backed_init {σ η : Type} : Backed settings (World.init : World σ η) where
  item x h := absurd h (by simp [World.init, Db.empty])
  artifact x h := absurd h (by simp [World.init, Db.empty])
  justified x h := absurd h (by simp [World.init, Db.empty])
  graded s i v pc gs reason he := absurd he (by simp [World.init])

/-- Grades stay. -/
theorem grades_step {l : Label σ η} (hs : step cfg w l = some w') {g : Grade}
    (h : g ∈ w.store.db.grades) : g ∈ w'.store.db.grades := by
  rcases step_grades hs with ⟨hg, -⟩ | ⟨_, _, _, _, _, _, -, -, -, hdb⟩
  · exact hg ▸ h
  · simp [hdb, insertGrades, h]

theorem item_step {l : Label σ η} (hs : step cfg w l = some w') {i : ItemId}
    (h : (w.store.db.items.get i).isSome = true) : (w'.store.db.items.get i).isSome = true := by
  obtain ⟨row, hrow⟩ := Option.isSome_iff_exists.mp h
  obtain ⟨row', hrow', -⟩ := step_item hs hrow
  simp [hrow']

theorem mem_gradesOf_step {l : Label σ η} (hs : step cfg w l = some w') {i : ItemId} :
    ∀ g ∈ (gradesOf w.store.db i).map (·.toNewGrade),
      g ∈ (gradesOf w'.store.db i).map (·.toNewGrade) := by
  intro g hg
  obtain ⟨g', hg', rfl⟩ := List.mem_map.mp hg
  obtain ⟨hmem, hi⟩ := List.mem_filter.mp hg'
  exact List.mem_map_of_mem (List.mem_filter.mpr ⟨grades_step hs hmem, hi⟩)

theorem justified_step {l : Label σ η} (hA : Backed settings w) (hj : Judges lib settings w l)
    (hs : step cfg w l = some w') {s : σ} {i : ItemId} {v : Loaded} {pc : Pc} {gs : List NewGrade}
    {reason : ReviewReason} (he' : w'.workers s = some ⟨i, .at v pc⟩)
    (hpc : pc.graded = some (gs, some reason)) : Justified settings gs reason := by
  have hfirst : pc.isFirst = false := by
    cases pc <;> first | rfl | exact absurd hpc (by simp [Pc.graded])
  rcases step_pc hs he' hfirst with ⟨hw, -⟩ | ⟨c, pc₀, rfl, hw, hstep⟩
  · exact hA.graded s i v pc gs reason hw hpc
  · cases hstep with
    | disagreed hc =>
      simp only [Pc.graded, Option.some.injEq, Prod.mk.injEq] at hpc
      obtain ⟨rfl, rfl⟩ := hpc
      obtain ⟨judge, hjudge⟩ := hj s c i v _ rfl hw
      exact gradeRunItem_justified (hjudge.symm.trans hc)
    | unreviewed =>
      simp only [Pc.graded, Option.some.injEq, Prod.mk.injEq] at hpc
      obtain ⟨rfl, rfl⟩ := hpc
      exact hA.graded s i v _ _ _ hw rfl
    | agreed | reviewed => exact absurd hpc (by simp [Pc.graded])
    | _ => exact absurd hpc (by simp [Pc.graded])

/-- A review is there already, or committed with its grades. -/
theorem mem_reviews_step {l : Label σ η} (hs : step cfg w l = some w') {x : ReviewItem}
    (hx : x ∈ w'.store.db.reviews) : x ∈ w.store.db.reviews ∨
      ∃ s c v gs, l = .exec s c ∧
        w.workers s = some ⟨x.runItemId, .at v (.gradeCommit gs (some x.reason))⟩ ∧
        ∀ g ∈ gs, g ∈ (gradesOf w'.store.db x.runItemId).map (·.toNewGrade) := by
  rcases step_grades hs with ⟨-, hr⟩ | ⟨s, c, i, v, gs, review, rfl, he, -, hdb⟩
  · exact Or.inl (hr ▸ hx)
  · rw [hdb] at hx ⊢
    rcases List.mem_append.mp hx with hx | hx
    · exact Or.inl hx
    · obtain ⟨reason, hreason, rfl⟩ := List.mem_map.mp hx
      obtain rfl := Option.mem_toList.mp hreason
      refine Or.inr ⟨s, c, v, gs, rfl, he, fun g hg => ?_⟩
      simp only [gradesOf, insertGrades, List.filter_append, List.map_append, List.mem_append]
      exact Or.inr (List.mem_map.mpr ⟨⟨g, i⟩, List.mem_filter.mpr ⟨List.mem_map_of_mem hg, by simp⟩, rfl⟩)

theorem backed_step {l : Label σ η} (hS : Sane cfg w) (hW : w.Written) (hA : Backed settings w)
    (hj : Judges lib settings w l) (hs : step cfg w l = some w') : Backed settings w' where
  item x hx := by
    rcases mem_reviews_step hs hx with hold | ⟨s, c, v, gs, -, he, -⟩
    · exact item_step hs (hA.item x hold)
    · exact item_step hs (hS.sent _ (hS.known s _ he))
  artifact x hx := by
    rcases mem_reviews_step hs hx with hold | ⟨s, c, v, gs, -, he, -⟩
    · exact artifact_step hs (hA.artifact x hold)
    · exact artifact_step hs (hW.written s _ v _ he rfl)
  justified x hx := by
    rcases mem_reviews_step hs hx with hold | ⟨s, c, v, gs, -, he, hgs⟩
    · exact (hA.justified x hold).mono (mem_gradesOf_step hs)
    · exact (hA.graded s _ v _ gs x.reason he rfl).mono hgs
  graded s i v pc gs reason he' hpc := justified_step hA hj hs he' hpc

theorem backed_of_run {tr : List (World σ η × Label σ η)} (h : Run (step cfg) World.init tr w)
    (hj : Along (Judges lib settings) tr) : Backed settings w :=
  (h.invariant (I := fun w => Sane cfg w ∧ w.Written ∧ Backed settings w)
    (fun _ _ _ ⟨hS, hW, hA⟩ hj hs =>
      ⟨sane_step hS hs, hW.step hs, backed_step hS hW hA hj hs⟩) hj
    ⟨sane_init, World.Written.init, backed_init⟩).2.2

/-! ## 5. The listing -/

variable {codec : Codec} {ids : Uuids} {order : Sql.TieOrder Grade} {S S' : Service σ η κ}
  {tr tr' : List (Service σ η κ × ServiceLabel σ η κ)}

/-- The entry of a row shows its review and task, the answer as it is in `m`, the grades as they are
in `db`, and among these the two the review was opened for. -/
structure ReviewQueueItem.Shows (settings : Settings) (created : ReviewId → Timestamp) (db : Db)
    (m : Backend) (x : QueueRow) (e : ReviewQueueItem) : Prop where
  review : e.reviewItemId = x.id ∧ e.reason = x.review.reason ∧ e.status = x.review.status ∧
    e.createdAt = created x.id
  task : e.runItemId = x.itemId ∧ e.capability = x.task.capability ∧ e.prompt = x.task.prompt ∧
    e.expectedOutput = x.task.expectedOutput
  output : ∃ text, EvalHarness.modelOutput m x.itemId = some text ∧ e.modelOutput = some (str text)
  grades : e.grades.Perm ((gradesOf db x.itemId).map (·.toNewGrade))
  justified : Justified settings e.grades e.reason

theorem work_from (h : Run (serviceStep cfg) S tr S') : Run (step cfg) S.work (workView tr) S'.work :=
  h.view fun _ _ _ hs => work_step hs

/-- What a review was opened for is still there later. -/
theorem Justified.later {i : ItemId} {reason : ReviewReason}
    (hj : Justified settings ((gradesOf S.world.store.db i).map (·.toNewGrade)) reason)
    (h : Run (serviceStep cfg) S tr S') :
    Justified settings ((gradesOf S'.world.store.db i).map (·.toNewGrade)) reason :=
  (work_from h).stable (I := fun w =>
    Justified settings ((gradesOf w.store.db i).map (·.toNewGrade)) reason)
    (fun _ _ _ hj hs => hj.mono (mem_gradesOf_step hs)) hj

theorem artifact_later {i : ItemId} (hi : (S.world.store.artifacts ⟨i⟩).isSome = true)
    (h : Run (serviceStep cfg) S tr S') : (S'.world.store.artifacts ⟨i⟩).isSome = true :=
  (work_from h).stable (I := fun w => (w.store.artifacts ⟨i⟩).isSome = true)
    (fun _ _ _ hi hs => artifact_step hs hi) hi

/-- A review of the desk is backed by what the workers have left. -/
theorem backed_of_desk (h : Run (serviceStep cfg) Service.init tr S)
    (hj : Along (Judges lib settings) (workView tr)) {k : ReviewId} {row : ReviewItem}
    (hrow : S.desk.reviews.get k = some row) :
    (S.world.store.db.items.get row.runItemId).isSome = true ∧
      (S.world.store.artifacts ⟨row.runItemId⟩).isSome = true ∧
      Justified settings ((gradesOf S.world.store.db row.runItemId).map (·.toNewGrade)) row.reason := by
  have hback := backed_of_run (work_of_run h) hj
  have hmem : row.blank ∈ S.work.store.db.reviews := by
    refine List.mem_map_of_mem ?_
    rw [S.shared]
    exact List.mem_map_of_mem ((Table.mem_rows_iff _).mpr hrow)
  exact ⟨hback.item row.blank hmem, hback.artifact row.blank hmem, hback.justified row.blank hmem⟩

/-- The joins find every review. -/
theorem exists_row (h : Run (serviceStep cfg) Service.init tr S)
    (hj : Along (Judges lib settings) (workView tr)) {k : ReviewId} {row : ReviewItem}
    (hrow : S.desk.reviews.get k = some row) :
    ∃ x : QueueRow, x.id = k ∧ x.review = row ∧
      x.Stored cfg.catalog S.desk.reviews S.world.store.db.items := by
  obtain ⟨item, hitem⟩ := Option.isSome_iff_exists.mp (backed_of_desk h hj hrow).1
  obtain ⟨⟨task, htask⟩, -⟩ := (sane_of_run (work_of_run h)).catalog_of_item row.runItemId item hitem
  exact ⟨⟨k, row, row.runItemId, item, item.taskId, task⟩, rfl, rfl, hrow, rfl, hitem, htask⟩

/-- What the GET for a review is made into. -/
theorem output_of_run (hdepth : 2 ≤ codec.depth) (h : Run (serviceStep cfg) Service.init tr S)
    (hp : Along WritesPrinted (workView tr)) (i : ItemId) :
    (getArtifact codec ids (redisAfter codec ids (workView tr)) i).toOption.bind outputOf =
      some ((modelOutput S.world.store i).map str) := by
  rw [(stores_of_run hdepth (work_of_run h) hp).text i, modelOutput]
  cases ha : S.world.store.artifacts ⟨i⟩ with
  | none =>
    rw [show S.work.store.artifacts ⟨i⟩ = none from ha]
    rfl
  | some artifact =>
    rw [show S.work.store.artifacts ⟨i⟩ = some artifact from ha]
    exact outputOf_toJson artifact

theorem mapM_of_forall {α β : Type} {f : α → Option β} {g : α → β} {xs : List α}
    (h : ∀ x ∈ xs, f x = some (g x)) : xs.mapM f = some (xs.map g) := by
  induction xs with
  | nil => rfl
  | cons x xs ih =>
    rw [List.mapM_cons, h x (by simp), ih fun y hy => h y (by simp [hy])]
    rfl

section Listing

variable {U : ReviewId → Service σ η κ} {gets : ReviewId → List (Service σ η κ × ServiceLabel σ η κ)}

/-- **The queue shows every waiting review, and what it is about.**  The handler reads the reviews in
one state of the service, the grades in a later one, and each artifact in a later one still, with
anything going on in between.  It answers.  Every review has its item and task, so that no join drops
it, and if it is asked for, it is on the page, or the page is full of older ones; the page is in the
order of creation, without repetition; and an entry shows the text of a completion of its item, and
the deterministic grade and the judge's that the review was opened for. -/
theorem review_queue_listing (codec : Py.Codec) (ids : Uuids) (hdepth : 2 ≤ codec.depth)
    (h : Run (serviceStep cfg) Service.init tr S) (h' : Run (serviceStep cfg) S tr' S')
    (hgets : ∀ k, Run (serviceStep cfg) S' (gets k) (U k))
    (hj : Along (Judges lib settings) (workView tr))
    (hp : ∀ k, Along WritesPrinted (workView (tr ++ tr' ++ gets k)))
    (created : ReviewId → Timestamp) (order : Sql.TieOrder Grade) (status : ReviewStatus)
    (capability : Option String) (limit : Nat) :
    ∃ entries, listReviewQueue codec ids created order cfg.catalog S.desk.reviews
        S.world.store.db.items S'.world.store.db.grades
        (fun k => redisAfter codec ids (workView (tr ++ tr' ++ gets k))) status capability limit =
      some entries ∧ entries.length ≤ limit ∧
    (entries.Pairwise fun a b =>
      queueKey created a.reviewItemId < queueKey created b.reviewItemId) ∧
    (∀ e ∈ entries, ∃ x : QueueRow,
      x.Stored cfg.catalog S.desk.reviews S.world.store.db.items ∧ x.Selected status capability ∧
        e.Shows settings created S'.world.store.db (U x.id).world.store x) ∧
    ∀ k row, S.desk.reviews.get k = some row → ∃ x : QueueRow, x.id = k ∧ x.review = row ∧
      x.Stored cfg.catalog S.desk.reviews S.world.store.db.items ∧
        (x.Selected status capability → k ∉ entries.map (·.reviewItemId) →
          entries.length = limit ∧
            ∀ e ∈ entries, queueKey created e.reviewItemId < queueKey created k) := by
  let rows := queueRows cfg.catalog S.desk.reviews S.world.store.db.items status capability
  let page := queuePage created limit rows
  let byItem := gradesByItem order S'.world.store.db.grades (page.map QueueRow.itemId)
  let shown : QueueRow → ReviewQueueItem := fun x =>
    queueItem created byItem x ((modelOutput (U x.id).world.store x.itemId).map str)
  have hids : (page.map shown).map (·.reviewItemId) = page.map QueueRow.id := by
    rw [List.map_map]
    rfl
  refine ⟨page.map shown, ?_, ?_, ?_, ?_, ?_⟩
  · refine mapM_of_forall fun x _ => ?_
    rw [output_of_run hdepth ((h.append h').append (hgets x.id)) (hp x.id), Option.map_some]
  · rw [List.length_map]
    exact List.length_take_le _ _
  · exact List.pairwise_map.mpr (queuePage_sorted nodup_queueRows)
  · intro e he
    obtain ⟨x, hx, rfl⟩ := List.mem_map.mp he
    obtain ⟨hstored, hselected⟩ := mem_queueRows (mem_queuePage hx)
    obtain ⟨-, hart, hjust⟩ := backed_of_desk h hj hstored.review
    rw [hstored.itemId] at hart hjust
    obtain ⟨artifact, hart⟩ :=
      Option.isSome_iff_exists.mp (artifact_later (artifact_later hart h') (hgets x.id))
    have hgrades : (shown x).grades.Perm
        ((gradesOf S'.world.store.db x.itemId).map (·.toNewGrade)) :=
      (gradesByItem_get (List.mem_map_of_mem hx)).map _
    refine ⟨x, hstored, hselected, ⟨rfl, rfl, rfl, rfl⟩, ⟨rfl, rfl, rfl, rfl⟩,
      ⟨artifact.rawResponse.text, ?_, ?_⟩, hgrades, ?_⟩
    · rw [modelOutput, hart, Option.map_some]
    · simp only [shown, queueItem, modelOutput, hart, Option.map_some]
    · exact (hjust.later h').mono fun g hg => hgrades.mem_iff.mpr hg
  · intro k row hrow
    obtain ⟨x, rfl, rfl, hstored⟩ := exists_row h hj hrow
    refine ⟨x, rfl, rfl, hstored, fun hselected hout => ?_⟩
    obtain ⟨y, hy, hyx⟩ := queueRows_of_stored hstored hselected
    rw [hids, ← hyx] at hout
    obtain ⟨hlen, hlt⟩ := queuePage_full hy hout
    refine ⟨by rw [List.length_map]; exact hlen, fun e he => ?_⟩
    obtain ⟨z, hz, rfl⟩ := List.mem_map.mp he
    exact hyx ▸ hlt z hz

end Listing

/-- The review of an undecided judge is on the page, with the answer that was judged. -/
theorem review_queue_listing_small : ∃ (tr : List (Service (Fin 1) (Fin 1) (Fin 1) ×
    ServiceLabel (Fin 1) (Fin 1) (Fin 1))) (S : Service (Fin 1) (Fin 1) (Fin 1))
    (entries : List ReviewQueueItem),
    listReviewQueue plainJson.codec hexIds (fun _ => 0) ⟨id, fun _ => .refl _⟩ comparedConfig.catalog
        S.desk.reviews S.world.store.db.items S.world.store.db.grades
        (fun _ => redisAfter plainJson.codec hexIds (workView tr)) .open none 50 = some entries ∧
      ∃ e ∈ entries, e.reviewItemId = 0 ∧ e.modelOutput.isSome = true := by
  obtain ⟨tr, S, hrun, -, htest⟩ := exists_run_of_play (serviceStep comparedConfig)
    (Service.init : Service (Fin 1) (Fin 1) (Fin 1)) (fun _ _ => true)
    ((gradedUndecided 0 0).map (.work · 0))
    (fun tr S => (workView tr).all (fun p => judgesUndecided p.1 p.2 &&
      decide (WritesPrinted p.1 p.2)) && S.desk.statusOf 0 == some .open)
    (by decide +kernel)
  simp only [Bool.and_eq_true, List.all_eq_true, beq_iff_eq, decide_eq_true_eq] at htest
  obtain ⟨hall, hst⟩ := htest
  obtain ⟨row, hrow, hopen⟩ := Desk.statusOf_eq_some.mp hst
  have hp : Along WritesPrinted (workView (tr ++ [] ++ [])) := by
    rw [List.append_nil, List.append_nil]
    exact fun p hp => (hall p hp).2
  obtain ⟨entries, hlist, -, -, hshows, hall⟩ := review_queue_listing plainJson.codec hexIds
    (U := fun _ => S) (by decide) hrun .nil (fun _ => .nil)
    (fun p hp => judges_of_undecided (hall p hp).1) (fun _ => hp) (fun _ => 0)
    ⟨id, fun _ => .refl _⟩ .open none 50
  rw [show (fun _ : ReviewId => redisAfter plainJson.codec hexIds (workView (tr ++ [] ++ []))) =
    fun _ => redisAfter plainJson.codec hexIds (workView tr) by simp] at hlist
  refine ⟨tr, S, entries, hlist, ?_⟩
  obtain ⟨x, -, rfl, -, hpage⟩ := hall 0 row hrow
  have hmem : 0 ∈ entries.map (·.reviewItemId) := by
    -- a page without it would be full of reviews with smaller ids
    by_contra hout
    obtain ⟨hlen, hless⟩ := hpage ⟨hopen, rfl⟩ hout
    obtain ⟨e, he⟩ := List.exists_mem_of_length_pos (show 0 < entries.length by omega)
    simpa [queueKey, Prod.Lex.toLex_lt_toLex] using hless e he
  obtain ⟨e, he, hid⟩ := List.mem_map.mp hmem
  obtain ⟨y, -, -, hy⟩ := hshows e he
  obtain ⟨text, -, hout⟩ := hy.output
  exact ⟨e, he, hid, by simp [hout]⟩

/-! ## 6. The statistics -/

structure ReviewStats where
  «open» : Nat
  claimed : Nat
  resolved : Nat
  meanTimeToResolveMs : Option Sql.Numeric
  deriving DecidableEq

/-- `EXTRACT(epoch FROM resolved_at - claimed_at)`, in seconds. -/
def resolveSeconds (row : ReviewItem) : Option Sql.Numeric :=
  row.resolvedAt.bind fun resolved => row.claimedAt.map fun claimed =>
    (((resolved - claimed : ℚ) / 1000000 : ℚ) : Sql.Numeric)

/-- `review_queue_stats`. -/
def reviewQueueStats (reviews : Table ReviewId ReviewItem) : ReviewStats :=
  let rows := (Sql.groupBy (fun x => x.2.status) reviews.rows).map fun g => (g.1, g.2.length)
  let counts : Dict ReviewStatus Nat :=
    Dict.update (Dict.ofRows [(.open, 0), (.claimed, 0), (.resolved, 0)]) rows
  let meanSeconds := Sql.avg ((reviews.rows.filter fun x =>
    x.2.resolvedAt.isSome && x.2.claimedAt.isSome).map fun x => resolveSeconds x.2)
  { «open» := (counts.get .open).getD 0
    claimed := (counts.get .claimed).getD 0
    resolved := (counts.get .resolved).getD 0
    meanTimeToResolveMs := meanSeconds.map (Sql.scale · 1000) }

/-- The reviews in a status. -/
def inStatus (reviews : Table ReviewId ReviewItem) (status : ReviewStatus) : Nat :=
  reviews.count fun _ row => row.status == status

theorem counts_get (reviews : Table ReviewId ReviewItem) (status : ReviewStatus) :
    ((Dict.update (Dict.ofRows [(.open, 0), (.claimed, 0), (.resolved, 0)])
      ((Sql.groupBy (fun x : ReviewId × ReviewItem => x.2.status) reviews.rows).map
        fun g => (g.1, g.2.length))).get status).getD 0 = inStatus reviews status := by
  have hkeys : (((Sql.groupBy (fun x : ReviewId × ReviewItem => x.2.status) reviews.rows).map
      fun g => (g.1, g.2.length)).map Prod.fst).Nodup := by
    rw [List.map_map, show (Prod.fst ∘ fun g : ReviewStatus × List (ReviewId × ReviewItem) =>
      (g.1, g.2.length)) = Prod.fst from rfl, Sql.keys_groupBy]
    exact List.nodup_dedup _
  have hzero : ((Dict.ofRows [(.open, 0), (.claimed, 0), (.resolved, 0)] :
      Dict ReviewStatus Nat).get status) = some 0 := by
    cases status <;> decide
  rw [Dict.get_update hkeys, hzero, Sql.lookup_groupBy]
  split
  · rw [Option.some_or, Option.getD_some, ← List.countP_eq_length_filter]
    rfl
  · rename_i hmem
    rw [Option.none_or, Option.getD_some, eq_comm, inStatus, Table.count_eq_zero]
    intro k row hrow
    simpa using fun hst => hmem (List.mem_map.mpr ⟨(k, row), (Table.mem_rows_iff _).mpr hrow, hst⟩)

/-! ### What reviewers have done -/

section Statistics

variable {d d' : Desk κ} {b : List (Desk κ × DeskLabel κ)}

/-- The time at which a claim of item `k` succeeds. -/
def claimTime (k : ReviewId) (p : Desk κ × DeskLabel κ) : Option Timestamp :=
  match p.2 with
  | .claim _ _ now => if claimWins k p then some now else none
  | _ => none

/-- The time at which a resolve of item `k` succeeds. -/
def resolveTime (k : ReviewId) (p : Desk κ × DeskLabel κ) : Option Timestamp :=
  match p.2 with
  | .resolve _ _ _ now => if (resolvedLabel k p).isSome then some now else none
  | _ => none

/-- A claim that succeeds, of any item. -/
def claims (p : Desk κ × DeskLabel κ) : Bool :=
  match p.2 with
  | .claim _ k _ => claimWins k p
  | _ => false

/-- A resolve that succeeds. -/
def resolves (p : Desk κ × DeskLabel κ) : Bool :=
  match p.2 with
  | .resolve _ k _ _ => (resolvedLabel k p).isSome
  | _ => false

/-- From the claim of an item to its resolve, in microseconds. -/
def waited (b : List (Desk κ × DeskLabel κ)) (k : ReviewId) : ℚ :=
  ((latest (resolveTime k) b).getD 0 : ℚ) - ((latest (claimTime k) b).getD 0 : ℚ)

/-- The columns of a row have the times of its claim and its resolve. -/
structure Timed (b : List (Desk κ × DeskLabel κ)) (k : ReviewId) (row : ReviewItem) : Prop where
  claimed : row.claimedAt = latest (claimTime k) b
  resolved : row.resolvedAt = latest (resolveTime k) b

/-- Nothing has happened to an item that is not there. -/
theorem times_of_absent (h : Run deskStep Desk.init b d) {k : ReviewId}
    (hnone : d.reviews.get k = none) :
    latest (claimTime k) b = none ∧ latest (resolveTime k) b = none := by
  have hrec := recorded_of_run h k
  rw [hnone] at hrec
  cases hrec with
  | absent hc hr =>
    have hclaim : ∀ p ∈ b, claimTime k p = none := by
      intro p hp
      have := List.countP_eq_zero.mp hc p hp
      unfold claimTime
      split <;> simp_all
    have hresolve : ∀ p ∈ b, resolveTime k p = none := by
      intro p hp
      have := List.filterMap_eq_nil_iff.mp hr p hp
      unfold resolveTime
      split <;> simp_all
    exact ⟨latest_eq_none hclaim, latest_eq_none hresolve⟩

theorem timed_step (h : Run deskStep Desk.init b d)
    (hI : ∀ k row, d.reviews.get k = some row → Timed b k row) {l : DeskLabel κ}
    (hs : deskStep d l = some d') {k : ReviewId} {row' : ReviewItem}
    (hrow' : d'.reviews.get k = some row') : Timed (b ++ [(d, l)]) k row' := by
  cases hrow : d.reviews.get k with
  | none =>
    obtain ⟨hc, hr⟩ := times_of_absent h hrow
    obtain ⟨rid, reason, rfl, rfl⟩ := step_review_new hs hrow' hrow
    exact ⟨by simp [hc, claimTime, openReview], by simp [hr, resolveTime, openReview]⟩
  | some row =>
    obtain ⟨row₁, hrow₁, hch⟩ := step_review hs hrow
    obtain rfl := Option.some.inj (hrow₁.symm.trans hrow')
    have hst : d.statusOf k = some row.status := Desk.statusOf_eq_some.mpr ⟨row, hrow, rfl⟩
    cases hch with
    | keep hc hr =>
      have hclaim : claimTime k (d, l) = none := by
        cases l <;> simp [claimTime, hc]
      have hresolve : resolveTime k (d, l) = none := by
        cases l <;> simp [resolveTime, hr]
      exact ⟨by simpa [hclaim] using (hI k row hrow).claimed,
        by simpa [hresolve] using (hI k row hrow).resolved⟩
    | claim hopen =>
      exact ⟨by simp [claimTime, claimWins, hst, hopen],
        by simpa [resolveTime] using (hI k row hrow).resolved⟩
    | resolve hclaimed =>
      exact ⟨by simpa [claimTime] using (hI k row hrow).claimed,
        by simp [resolveTime, resolvedLabel, hst, hclaimed]⟩

theorem timed_of_run (h : Run deskStep Desk.init b d) {k : ReviewId} {row : ReviewItem}
    (hrow : d.reviews.get k = some row) : Timed b k row := by
  induction h generalizing k row with
  | nil => exact absurd hrow (by simp [Desk.init])
  | snoc hrun hs ih => exact timed_step hrun (fun _ _ h => ih h) hs hrow

/-- A weight of the statuses, summed over the reviews. -/
def weightOf (g : ReviewStatus → ℤ) (d : Desk κ) : ℤ := d.reviews.sumBy fun _ row => g row.status

theorem weightOf_update {κ : Type}
    (d : Desk κ) (g : ReviewStatus → ℤ) (k : ReviewId) (st : ReviewStatus)
    {st' : ReviewStatus} {f : ReviewItem → ReviewItem} (hf : ∀ row, (f row).status = st') :
    ((updateReview d.reviews k st f).1.sumBy fun _ row => g row.status) =
      weightOf g d + if d.statusOf k = some st then g st' - g st else 0 := by
  rw [weightOf, Table.sumBy_eq_add_of_get (t := d.reviews) k]
  · rw [updateReview_get, Desk.statusOf]
    cases d.reviews.get k with
    | none => simp
    | some row => by_cases hst : row.status = st <;> simp [hst, hf]
  · intro k' hk'
    rw [updateReview_get]
    cases d.reviews.get k' <;> simp [hk']

theorem weightOf_step {l : DeskLabel κ} (hs : deskStep d l = some d') (g : ReviewStatus → ℤ) :
    weightOf g d' = weightOf g d + (if l.isInsert then g .open else 0) +
      (if claims (d, l) then g .claimed - g .open else 0) +
      (if resolves (d, l) then g .resolved - g .claimed else 0) := by
  cases deskStep_cases hs with
  | insert hins =>
    simp [weightOf, Table.sumBy, Table.rows_insertAll hins, DeskLabel.isInsert, claims, resolves,
      openReview]
  | @claim h k now =>
    have hsum := weightOf_update d g k .open
      (f := fun row => { row with status := .claimed, claimedAt := some now }) fun _ => rfl
    refine hsum.trans ?_
    simp [DeskLabel.isInsert, claims, claimWins, resolves]
  | @resolve h k payload now =>
    have hsum := weightOf_update d g k .claimed
      (f := fun row => { row with
        status := .resolved, reviewerLabel := some payload.label.score,
        reviewerNotes := payload.notes, resolvedAt := some now }) fun _ => rfl
    refine hsum.trans ?_
    by_cases hst : d.statusOf k = some .claimed <;>
      simp [DeskLabel.isInsert, claims, resolves, resolvedLabel, hst]
  | read | drop => simp [weightOf, Desk.setRequest, DeskLabel.isInsert, claims, resolves]

theorem weightOf_run (h : Run deskStep Desk.init b d) (g : ReviewStatus → ℤ) :
    weightOf g d = b.countP (fun p => p.2.isInsert) * g .open +
      b.countP claims * (g .claimed - g .open) + b.countP resolves * (g .resolved - g .claimed) := by
  induction h with
  | nil => simp [weightOf, Desk.init, Table.sumBy, Table.empty]
  | @snoc b d l d' _ hs ih =>
    rw [weightOf_step hs, ih]
    simp only [List.countP_append, List.countP_singleton]
    push_cast
    split_ifs <;> ring

theorem inStatus_eq_weightOf {κ : Type} {d : Desk κ} (st : ReviewStatus) :
    (inStatus d.reviews st : ℤ) = weightOf (fun st' => if st' = st then 1 else 0) d := by
  rw [inStatus, Table.count, weightOf, Table.sumBy]
  induction d.reviews.rows with
  | nil => rfl
  | cons x rows ih =>
    rw [List.countP_cons, List.map_cons, List.sum_cons, ← ih]
    by_cases hx : x.2.status = st <;> simp [hx, add_comm]

/-- **Nothing is counted twice, or not at all.** -/
theorem inStatus_of_run (h : Run deskStep Desk.init b d) :
    inStatus d.reviews .open + b.countP claims = b.countP (fun p => p.2.isInsert) ∧
      inStatus d.reviews .claimed + b.countP resolves = b.countP claims ∧
      inStatus d.reviews .resolved = b.countP resolves := by
  have hopen := (inStatus_eq_weightOf (d := d) .open).trans (weightOf_run h _)
  have hclaimed := (inStatus_eq_weightOf (d := d) .claimed).trans (weightOf_run h _)
  have hresolved := (inStatus_eq_weightOf (d := d) .resolved).trans (weightOf_run h _)
  simp at hopen hclaimed hresolved
  omega

/-- The columns are filled in the rows that are resolved. -/
theorem resolved_columns (h : Run deskStep Desk.init b d) :
    (d.reviews.rows.filter fun x => x.2.resolvedAt.isSome && x.2.claimedAt.isSome) =
      d.reviews.rows.filter fun x => x.2.status == .resolved := by
  refine List.filter_congr fun x hx => ?_
  have hrec := recorded_of_run h x.1
  rw [(Table.mem_rows_iff _).mp hx] at hrec
  have hcoh := hrec.coherent
  by_cases hst : x.2.status = .resolved
  · have hclaimed : x.2.claimedAt.isSome = true := hcoh.claimed.mpr (by simp [hst])
    simp [hcoh.resolved.mpr hst, hclaimed, hst]
  · have hnone : x.2.resolvedAt.isSome = false := by simpa using fun h => hst (hcoh.resolved.mp h)
    simp [hnone, hst]

/-- The seconds of a resolved row. -/
theorem resolveSeconds_of_run (h : Run deskStep Desk.init b d) {k : ReviewId} {row : ReviewItem}
    (hrow : d.reviews.get k = some row) (hst : row.status = .resolved) :
    resolveSeconds row = some ((waited b k / 1000000 : ℚ) : Sql.Numeric) := by
  have htimed := timed_of_run h hrow
  have hrec := recorded_of_run h k
  rw [hrow] at hrec
  have hcoh := hrec.coherent
  obtain ⟨resolved, hresolved⟩ := Option.isSome_iff_exists.mp (hcoh.resolved.mpr hst)
  obtain ⟨claimed, hclaimed⟩ := Option.isSome_iff_exists.mp (hcoh.claimed.mpr (by simp [hst]))
  simp only [resolveSeconds, waited, hresolved, hclaimed, ← htimed.resolved, ← htimed.claimed]
  rfl

/-- The time between claim and resolve, over the reviews that are resolved. -/
def totalWaited (d : Desk κ) (b : List (Desk κ × DeskLabel κ)) : ℚ :=
  ((d.reviews.rows.filter fun x => x.2.status == .resolved).map fun x => waited b x.1).sum

theorem mean_of_run (h : Run deskStep Desk.init b d) :
    (reviewQueueStats d.reviews).meanTimeToResolveMs =
      if inStatus d.reviews .resolved = 0 then none
      else some ((totalWaited d b / inStatus d.reviews .resolved / 1000 : ℚ) : Sql.Numeric) := by
  have hlen : inStatus d.reviews .resolved =
      (d.reviews.rows.filter fun x => x.2.status == .resolved).length :=
    List.countP_eq_length_filter
  simp only [reviewQueueStats]
  rw [resolved_columns h]
  by_cases hnil : (d.reviews.rows.filter fun x => x.2.status == .resolved) = []
  · rw [if_pos (by rw [hlen, hnil]; rfl), hnil]
    rfl
  · rw [if_neg (by rw [hlen]; exact fun hz => hnil (List.length_eq_zero_iff.mp hz)),
      Sql.avg_coe (q := fun x => waited b x.1 / 1000000) hnil fun x hx => ?_]
    · simp only [Option.map_some, Sql.scale, WithTop.map_coe, hlen, totalWaited, div_eq_mul_inv,
        List.sum_map_mul_right]
      congr 2
      ring
    · obtain ⟨hmem, hst⟩ := List.mem_filter.mp hx
      exact resolveSeconds_of_run h ((Table.mem_rows_iff _).mp hmem) (by simpa using hst)

def DeskLabel.time : DeskLabel κ → Option Timestamp
  | .claim _ _ now | .resolve _ _ _ now => some now
  | _ => none

/-- The clock does not go back. -/
def Forward (b : List (Desk κ × DeskLabel κ)) (_ : Desk κ) (l : DeskLabel κ) : Prop :=
  ∀ p ∈ b, ∀ t ∈ p.2.time, ∀ t' ∈ l.time, t ≤ t'

instance (b : List (Desk κ × DeskLabel κ)) (d : Desk κ) (l : DeskLabel κ) :
    Decidable (Forward b d l) :=
  inferInstanceAs (Decidable (∀ p ∈ b, ∀ t ∈ p.2.time, ∀ t' ∈ l.time, t ≤ t'))

theorem claimTime_time {κ : Type} {k : ReviewId} {p : Desk κ × DeskLabel κ} {t : Timestamp}
    (h : claimTime k p = some t) : p.2.time = some t := by
  obtain ⟨d, l⟩ := p
  cases l with
  | claim h' k' now =>
    simp only [claimTime, Option.ite_none_right_eq_some] at h
    exact h.2
  | _ => exact absurd h (by simp [claimTime])

/-- An item is resolved behind its claim. -/
theorem claim_le_resolve (h : Run deskStep Desk.init b d) (hclock : Follows Forward b)
    {k : ReviewId} {t t' : Timestamp} (ht : latest (claimTime k) b = some t)
    (ht' : latest (resolveTime k) b = some t') : t ≤ t' := by
  induction h with
  | nil => exact absurd ht (by simp)
  | @snoc b d l d' hrun hs ih =>
    rw [latest_snoc] at ht ht'
    cases hc : claimTime k (d, l) with
    | some now =>
      -- the item was open, so nobody has resolved it
      exfalso
      cases l with
      | claim h' k' now' =>
        simp only [claimTime, claimWins, Option.ite_none_right_eq_some, Bool.and_eq_true,
          beq_iff_eq] at hc
        obtain ⟨⟨rfl, hst⟩, -⟩ := hc
        obtain ⟨row, hrow, hopen⟩ := Desk.statusOf_eq_some.mp hst
        have hrec := recorded_of_run hrun k'
        rw [hrow] at hrec
        have hnone : latest (resolveTime k') b = none := by
          rw [← (timed_of_run hrun hrow).resolved, ← Option.not_isSome_iff_eq_none]
          exact fun hsome => absurd (hrec.coherent.resolved.mp hsome) (by simp [hopen])
        simp [resolveTime, hnone] at ht'
      | _ => exact absurd hc (by simp [claimTime])
    | none =>
      rw [hc, Option.none_or] at ht
      cases hr : resolveTime k (d, l) with
      | none =>
        rw [hr, Option.none_or] at ht'
        exact ih hclock.of_append ht ht'
      | some now =>
        obtain rfl : now = t' := by simpa [hr] using ht'
        obtain ⟨p, hp, hpt⟩ := exists_of_latest ht
        have hl : l.time = some now := by
          cases l with
          | resolve h' k' payload now' =>
            simp only [resolveTime, Option.ite_none_right_eq_some] at hr
            exact hr.2
          | _ => exact absurd hr (by simp [resolveTime])
        exact hclock b (d, l) [] rfl p hp t (claimTime_time hpt) now hl

theorem totalWaited_nonneg (h : Run deskStep Desk.init b d) (hclock : Follows Forward b) :
    0 ≤ totalWaited d b := by
  refine List.sum_nonneg fun q hq => ?_
  obtain ⟨x, hx, rfl⟩ := List.mem_map.mp hq
  obtain ⟨hmem, hst⟩ := List.mem_filter.mp hx
  have hrow := (Table.mem_rows_iff _).mp hmem
  have htimed := timed_of_run h hrow
  have hrec := recorded_of_run h x.1
  rw [hrow] at hrec
  have hst : x.2.status = .resolved := by simpa using hst
  obtain ⟨t', ht'⟩ := Option.isSome_iff_exists.mp (hrec.coherent.resolved.mpr hst)
  obtain ⟨t, ht⟩ := Option.isSome_iff_exists.mp (hrec.coherent.claimed.mpr (by simp [hst]))
  rw [htimed.resolved] at ht'
  rw [htimed.claimed] at ht
  have hle : (t : ℚ) ≤ t' := by exact_mod_cast claim_le_resolve h hclock ht ht'
  simpa [waited, ht, ht'] using hle

/-- **The statistics count what happened.**  In every state of the desk: the open items are those
inserted and not claimed, the claimed ones those claimed and not resolved, and the resolved ones as
many as resolves succeeded.  The mean time to resolve is there once something is resolved, and is the
mean, in milliseconds, of the times between the claim of a resolved item that succeeded and its
resolve; it is not negative if the clock does not go back. -/
theorem review_statistics (h : Run deskStep Desk.init b d) :
    let stats := reviewQueueStats d.reviews
    stats.open + b.countP claims = b.countP (fun p => p.2.isInsert) ∧
      stats.claimed + b.countP resolves = b.countP claims ∧
      stats.resolved = b.countP resolves ∧
      stats.meanTimeToResolveMs =
        (if stats.resolved = 0 then none
          else some ((totalWaited d b / stats.resolved / 1000 : ℚ) : Sql.Numeric)) ∧
      (Follows Forward b → 0 ≤ totalWaited d b) := by
  obtain ⟨hopen, hclaimed, hresolved⟩ := inStatus_of_run h
  have hstats : ∀ status, ((Dict.update (Dict.ofRows [(.open, 0), (.claimed, 0), (.resolved, 0)])
      ((Sql.groupBy (fun x : ReviewId × ReviewItem => x.2.status) d.reviews.rows).map
        fun g => (g.1, g.2.length))).get status).getD 0 = inStatus d.reviews status :=
    counts_get d.reviews
  refine ⟨?_, ?_, ?_, ?_, totalWaited_nonneg h⟩
  · rw [← hopen]
    exact congrArg (· + _) (hstats .open)
  · rw [← hclaimed]
    exact congrArg (· + _) (hstats .claimed)
  · rw [← hresolved]
    exact hstats .resolved
  · rw [mean_of_run h, ← hstats .resolved]
    rfl

end Statistics

/-- Of two reviews, one is claimed and resolved 2 ms later. -/
theorem review_statistics_small : ∃ d : Desk (Fin 1), (reviewQueueStats d.reviews).open = 1 ∧
      (reviewQueueStats d.reviews).resolved = 1 ∧
      (reviewQueueStats d.reviews).meanTimeToResolveMs = some ((2 : ℚ) : Sql.Numeric) := by
  obtain ⟨b, d, hrun, -, htest⟩ := exists_run_of_play deskStep (Desk.init : Desk (Fin 1))
    (fun _ _ => true)
    [.insert 0 7 .lowConfidence, .insert 1 8 .judgeDisagreement, .claim 0 0 3000, .read 0,
      .resolve 0 0 ⟨.num (4 / 5) (by decide +kernel) (by decide +kernel), none⟩ 5000]
    (fun b d => b.countP claims == 1 && b.countP resolves == 1 &&
      b.countP (fun p => p.2.isInsert) == 2 && decide (totalWaited d b = 2000))
    (by decide +kernel)
  simp only [Bool.and_eq_true, beq_iff_eq, decide_eq_true_eq] at htest
  obtain ⟨⟨⟨hclaims, hresolves⟩, hinserts⟩, hwaited⟩ := htest
  obtain ⟨hopen, -, hresolved, hmean, -⟩ := review_statistics hrun
  rw [hclaims, hinserts] at hopen
  rw [hresolves] at hresolved
  refine ⟨d, by omega, hresolved, ?_⟩
  rw [hmean, hresolved, hwaited, if_neg (by decide)]
  norm_num

end EvalHarness
