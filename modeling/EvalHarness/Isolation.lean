/-
# Runs do not meet

All runs share the same tables, the same queue and the same artifact store.  What an operation of
the system does is nevertheless local to one run: it is a `Change` of what belongs to that run
(its row, its items, their grades, reviews, artifacts and messages), and which change it is depends
on what belongs to that run only.  Section 2 proves so for every step of an execution
(`executeRunItem_local`) and of a request (`stepHandler_local`), section 4 for every transition
(`step_local`).

A run is then a part of the system in the sense of `Lts.Parts`, with the slots as parties.
`runs_isolated` draws the conclusions: an operation on one run leaves every other as it is, and
two sequences of operations on two runs end the same however they are interleaved.
-/
import EvalHarness.Lib.Parts
import EvalHarness.WellFormed

namespace EvalHarness

/-! ## 1. What belongs to a run -/

/-- The run of an item. -/
def Db.runOf (db : Db) (i : ItemId) : Option RunId := (db.items.get i).map RunItem.evalRunId

/-- Everything the store holds about one item. -/
structure ItemView where
  row : Option RunItem
  grades : List Grade
  reviews : List ReviewItem
  artifact : Option Artifact
  /-- Its messages: waiting on `evals`, ever published there, and on `evals.dlq`. -/
  waiting : Nat
  sent : Nat
  notices : Nat

def Backend.itemView (m : Backend) (i : ItemId) : ItemView where
  row := m.db.items.get i
  grades := m.db.grades.filter fun g => g.runItemId == i
  reviews := m.db.reviews.filter fun x => x.runItemId == i
  artifact := m.artifacts ⟨i⟩
  waiting := m.queue.count i
  sent := m.sent.count i
  notices := m.dlq.count i

/-- Two stores hold the same of run `p`, or of no run: its row, and everything about its items. -/
structure Backend.AgreeOn (p : Option RunId) (m m' : Backend) : Prop where
  run : ∀ r, p = some r → m.db.runs.get r = m'.db.runs.get r
  item : ∀ i, m.db.runOf i = p ∨ m'.db.runOf i = p → m.itemView i = m'.itemView i

section Agree

variable {p : Option RunId} {m m' m'' : Backend}

theorem Backend.AgreeOn.rfl' : m.AgreeOn p m := ⟨fun _ _ => rfl, fun _ _ => rfl⟩

theorem Backend.AgreeOn.symm (h : m.AgreeOn p m') : m'.AgreeOn p m :=
  ⟨fun r hr => (h.run r hr).symm, fun i hi => (h.item i hi.symm).symm⟩

theorem Backend.runOf_of_itemView {i : ItemId} (h : m.itemView i = m'.itemView i) :
    m.db.runOf i = m'.db.runOf i := by
  have hrow : m.db.items.get i = m'.db.items.get i := congrArg ItemView.row h
  rw [Db.runOf, Db.runOf, hrow]

theorem Backend.AgreeOn.runOf (h : m.AgreeOn p m') (i : ItemId) :
    m.db.runOf i = p ↔ m'.db.runOf i = p := by
  constructor
  · intro hi
    rw [← runOf_of_itemView (h.item i (Or.inl hi)), hi]
  · intro hi
    rw [runOf_of_itemView (h.item i (Or.inr hi)), hi]

theorem Backend.AgreeOn.trans (h : m.AgreeOn p m') (h' : m'.AgreeOn p m'') : m.AgreeOn p m'' where
  run r hr := (h.run r hr).trans (h'.run r hr)
  item i hi := by
    have hmid : m'.db.runOf i = p := by
      rcases hi with hi | hi
      · exact (h.runOf i).mp hi
      · exact (h'.runOf i).mpr hi
    exact (h.item i (Or.inr hmid)).trans (h'.item i (Or.inl hmid))

/-- What the store holds of an item of the run, field by field. -/
theorem Backend.AgreeOn.row (h : m.AgreeOn p m') {i : ItemId} (hi : m.db.runOf i = p) :
    m.db.items.get i = m'.db.items.get i := congrArg ItemView.row (h.item i (Or.inl hi))

end Agree

/-! ## 2. Changes of one run -/

/-- A change of what belongs to a run: of the items one by one, and of the run's row. -/
structure Change where
  item : ItemId → ItemView → ItemView
  run : Option EvalRun → Option EvalRun
  /-- Items stay with their run. -/
  keeps : ∀ i x, (item i x).row.map RunItem.evalRunId = x.row.map RunItem.evalRunId

/-- The store `m'` is `m` with the change made to run `r`, and to nothing else. -/
structure Change.Takes (c : Change) (r : RunId) (m m' : Backend) : Prop where
  item : ∀ i, m'.itemView i = if m.db.runOf i = some r then c.item i (m.itemView i) else m.itemView i
  run : ∀ r', m'.db.runs.get r' = if r' = r then c.run (m.db.runs.get r') else m.db.runs.get r'

namespace Change

variable {c d : Change} {r : RunId} {m m' m₁ m₁' : Backend}

theorem Takes.runOf (h : c.Takes r m m') (i : ItemId) : m'.db.runOf i = m.db.runOf i := by
  have hview := h.item i
  split at hview
  · have hrow : m'.db.items.get i = (c.item i (m.itemView i)).row := congrArg ItemView.row hview
    rw [Db.runOf, hrow, c.keeps]
    rfl
  · exact Backend.runOf_of_itemView hview

/-- A change of one run is none of another. -/
theorem Takes.frame (h : c.Takes r m m') {p : Option RunId} (hp : p ≠ some r) :
    m.AgreeOn p m' where
  run r' hr' := by
    rw [h.run r', if_neg]
    rintro rfl
    exact hp hr'
  item i hi := by
    rw [h.runOf i, or_self] at hi
    rw [h.item i, if_neg (by rw [hi]; exact hp)]

/-- The same change of the same run leaves the same run. -/
theorem Takes.congr (h : c.Takes r m m') (h₁ : c.Takes r m₁ m₁') (hag : m.AgreeOn (some r) m₁) :
    m'.AgreeOn (some r) m₁' where
  run r' hr' := by
    obtain rfl := Option.some.inj hr'
    rw [h.run, h₁.run, if_pos rfl, if_pos rfl, hag.run _ rfl]
  item i hi := by
    rw [h.runOf i, h₁.runOf i, ← hag.runOf i, or_self] at hi
    rw [h.item i, h₁.item i, if_pos hi, if_pos ((hag.runOf i).mp hi), hag.item i (Or.inl hi)]

/-- No change. -/
def none : Change := ⟨fun _ x => x, fun o => o, fun _ _ => rfl⟩

theorem none_takes : none.Takes r m m := ⟨fun _ => (ite_self _).symm, fun _ => (ite_self _).symm⟩

/-- One change after the other. -/
def andThen (c d : Change) : Change where
  item i x := d.item i (c.item i x)
  run o := d.run (c.run o)
  keeps i x := (d.keeps i _).trans (c.keeps i x)

theorem Takes.andThen {m'' : Backend} (h : c.Takes r m m') (h' : d.Takes r m' m'') :
    (c.andThen d).Takes r m m'' where
  item i := by
    rw [h'.item i, h.runOf i, h.item i]
    split <;> rfl
  run r' := by
    rw [h'.run r', h.run r']
    split <;> rfl

/-- A change of the rows of some items, which stay with their run. -/
def rows (f : ItemId → RunItem → RunItem) : Change where
  item i x := { x with row := x.row.map fun row => { f i row with evalRunId := row.evalRunId } }
  run o := o
  keeps i x := by
    rw [Option.map_map]
    rfl

/-- A change of the run's row. -/
def runRow (f : EvalRun → EvalRun) : Change := ⟨fun _ x => x, Option.map f, fun _ _ => rfl⟩

/-- A change beside the row of one item. -/
def beside (rid : ItemId) (f : ItemView → ItemView) (hf : ∀ x, (f x).row = x.row) : Change where
  item i x := if i = rid then f x else x
  run o := o
  keeps i x := by
    split
    · rw [hf]
    · rfl

end Change

/-! ## 3. The statements as changes -/

section Statements

variable {r : RunId} {rid : ItemId} {m : Backend}

theorem takes_updateItem (hr : m.db.runOf rid = some r) {g : RunItem → Bool}
    {f : RunItem → RunItem} (hf : ∀ row, { f row with evalRunId := row.evalRunId } = f row) :
    (Change.rows fun i row => if i = rid ∧ g row = true then f row else row).Takes r m
      { m with db := m.db.updateItem rid g f } where
  item i := by
    split
    · simp only [Backend.itemView, Change.rows, Db.updateItem_get]
      congr 2
      funext row
      split
      · exact (hf row).symm
      · rfl
    · rename_i hi
      have hne : i ≠ rid := fun h => hi (h ▸ hr)
      simp [Backend.itemView, hne]
  run r' := (ite_self _).symm

theorem takes_updateItemsOf {g : RunItem → Bool} {f : RunItem → RunItem}
    (hf : ∀ row, { f row with evalRunId := row.evalRunId } = f row) :
    (Change.rows fun _ row => if g row = true then f row else row).Takes r m
      { m with db := m.db.updateItemsOf r g f } where
  item i := by
    have hrun : m.db.runOf i = (m.db.items.get i).map RunItem.evalRunId := rfl
    cases hrow : m.db.items.get i with
    | none => simp [Backend.itemView, hrun, hrow]
    | some row =>
      by_cases hr : row.evalRunId = r
      · subst hr
        cases hg : g row <;> simp [Backend.itemView, Change.rows, hrun, hrow, hg, hf]
      · simp [Backend.itemView, hrun, hrow, hr]
  run r' := (ite_self _).symm

theorem takes_updateRun {g : EvalRun → Bool} {f : EvalRun → EvalRun} :
    (Change.runRow fun run => if g run = true then f run else run).Takes r m
      { m with db := m.db.updateRun r g f } where
  item i := (ite_self _).symm
  run r' := by
    rw [Db.updateRun_get]
    split
    · rename_i hr
      simp [Change.runRow, hr]
    · rename_i hr
      simp [hr]

/-- The transactions of two updates: of an item and its run, of a run and its items. -/
theorem takes_updateItem_updateRun (hr : m.db.runOf rid = some r) {gi : RunItem → Bool}
    {fi : RunItem → RunItem} (hf : ∀ row, { fi row with evalRunId := row.evalRunId } = fi row)
    {gr : EvalRun → Bool} {fr : EvalRun → EvalRun} :
    ((Change.rows fun i row => if i = rid ∧ gi row = true then fi row else row).andThen
      (Change.runRow fun run => if gr run = true then fr run else run)).Takes r m
        { m with db := (m.db.updateItem rid gi fi).updateRun r gr fr } :=
  (takes_updateItem hr hf).andThen (takes_updateRun (m := { m with db := m.db.updateItem rid gi fi }))

theorem takes_updateRun_updateItemsOf {gi : RunItem → Bool} {fi : RunItem → RunItem}
    (hf : ∀ row, { fi row with evalRunId := row.evalRunId } = fi row)
    {gr : EvalRun → Bool} {fr : EvalRun → EvalRun} :
    ((Change.runRow fun run => if gr run = true then fr run else run).andThen
      (Change.rows fun _ row => if gi row = true then fi row else row)).Takes r m
        { m with db := (m.db.updateRun r gr fr).updateItemsOf r gi fi } :=
  takes_updateRun.andThen (takes_updateItemsOf (m := { m with db := m.db.updateRun r gr fr }) hf)

/-- Whatever is written beside the row of one item. -/
theorem takes_beside {m' : Backend} {f : ItemView → ItemView} {hf : ∀ x, (f x).row = x.row}
    (hr : m.db.runOf rid = some r) (hruns : m'.db.runs = m.db.runs)
    (hother : ∀ i, i ≠ rid → m'.itemView i = m.itemView i)
    (hown : m'.itemView rid = f (m.itemView rid)) : (Change.beside rid f hf).Takes r m m' where
  item i := by
    by_cases hi : i = rid
    · subst hi
      simp [hr, hown, Change.beside]
    · simp [hother i hi, Change.beside, hi]
  run r' := by rw [hruns]; exact (ite_self _).symm

theorem takes_setArtifact (hr : m.db.runOf rid = some r) (a : Artifact) :
    (Change.beside rid (fun x => { x with artifact := some a }) fun _ => rfl).Takes r m
      (setArtifact m rid a) :=
  takes_beside hr rfl (fun i hi => by simp [Backend.itemView, setArtifact, hi])
    (by simp [Backend.itemView, setArtifact])

theorem takes_notice (hr : m.db.runOf rid = some r) :
    (Change.beside rid (fun x => { x with notices := x.notices + 1 }) fun _ => rfl).Takes r m
      { m with dlq := m.dlq ++ [rid] } :=
  takes_beside hr rfl (fun i hi => by simp [Backend.itemView, List.count_append, Ne.symm hi])
    (by simp [Backend.itemView, List.count_append])

theorem takes_enqueue (hr : m.db.runOf rid = some r) :
    (Change.beside rid (fun x => { x with waiting := x.waiting + 1, sent := x.sent + 1 })
      fun _ => rfl).Takes r m (enqueueRunItem m rid) :=
  takes_beside hr rfl
    (fun i hi => by simp [Backend.itemView, enqueueRunItem, List.count_append, Ne.symm hi])
    (by simp [Backend.itemView, enqueueRunItem, List.count_append])

theorem takes_deliver (hr : m.db.runOf rid = some r) :
    (Change.beside rid (fun x => { x with waiting := x.waiting - 1 }) fun _ => rfl).Takes r m
      { m with queue := m.queue.erase rid } :=
  takes_beside hr rfl (fun i hi => by simp [Backend.itemView, hi])
    (by simp [Backend.itemView])

theorem takes_insertGrades (hr : m.db.runOf rid = some r) (gs : List NewGrade)
    (review : Option ReviewReason) :
    (Change.beside rid
      (fun x => { x with
        grades := x.grades ++ gs.map fun g => { toNewGrade := g, runItemId := rid }
        reviews := x.reviews ++ review.toList.map fun reason => { runItemId := rid, reason } })
      fun _ => rfl).Takes r m { m with db := insertGrades m.db rid gs review } := by
  refine takes_beside hr rfl (fun i hi => ?_) ?_
  · simp [Backend.itemView, insertGrades, List.filter_map, Function.comp_def, Ne.symm hi]
  · simp [Backend.itemView, insertGrades, List.filter_map, Function.comp_def]

end Statements

/-! ## 4. The steps as changes -/

section Steps

variable {r : RunId} {rid : ItemId} {m m' : Backend}

/-- Whether some item of the run passes a filter is the run's own affair. -/
theorem Backend.AgreeOn.count_eq_zero (h : m.AgreeOn (some r) m') (g : RunItem → Bool) :
    (m.db.items.count fun _ row => row.evalRunId == r && g row) = 0 ↔
      (m'.db.items.count fun _ row => row.evalRunId == r && g row) = 0 := by
  have key : ∀ {m m' : Backend}, m.AgreeOn (some r) m' →
      (m.db.items.count fun _ row => row.evalRunId == r && g row) = 0 →
      (m'.db.items.count fun _ row => row.evalRunId == r && g row) = 0 := by
    intro m m' h hzero
    rw [Table.count_eq_zero] at hzero ⊢
    intro i row hrow
    by_cases hr : row.evalRunId = r
    · have hi : m'.db.runOf i = some r := by simp [Db.runOf, hrow, hr]
      exact hzero i row (by rw [h.row ((h.runOf i).mpr hi)]; exact hrow)
    · simp [hr]
  exact ⟨key h, key h.symm⟩

theorem remaining_congr (h : m.AgreeOn (some r) m') :
    remaining m.db r = 0 ↔ remaining m'.db r = 0 := h.count_eq_zero _

theorem hasDeadLetter_congr (h : m.AgreeOn (some r) m') :
    hasDeadLetter m.db r = hasDeadLetter m'.db r := by
  rw [hasDeadLetter, hasDeadLetter, Bool.eq_iff_iff, bne_iff_ne, bne_iff_ne]
  exact not_congr (h.count_eq_zero fun row => row.status == .deadLettered)

theorem runsHit_congr (h : m.AgreeOn (some r) m') (g : EvalRun → Bool) :
    m.db.runsHit r g = 1 ↔ m'.db.runsHit r g = 1 := by
  rw [Db.runsHit, Db.runsHit, Table.count_key_eq_one, Table.count_key_eq_one, h.run r rfl]

theorem itemsHit_congr (h : m.AgreeOn (some r) m') (hr : m.db.runOf rid = some r)
    (g : RunItem → Bool) : m.db.itemsHit rid g = 0 ↔ m'.db.itemsHit rid g = 0 := by
  rw [← not_iff_not, ← Ne, ← Ne, Db.itemsHit_ne_zero, Db.itemsHit_ne_zero, h.row hr]

theorem graded_congr (h : m.AgreeOn (some r) m') (hr : m.db.runOf rid = some r) :
    (m.db.grades.any fun g => g.runItemId == rid) =
      m'.db.grades.any fun g => g.runItemId == rid := by
  have hview := congrArg (fun x => x.grades.any fun _ => true) (h.item rid (Or.inl hr))
  simpa [Backend.itemView] using hview

theorem reviewed_congr (h : m.AgreeOn (some r) m') (hr : m.db.runOf rid = some r) :
    (m.db.reviews.any fun x => x.runItemId == rid) =
      m'.db.reviews.any fun x => x.runItemId == rid := by
  have hview := congrArg (fun x => x.reviews.any fun _ => true) (h.item rid (Or.inl hr))
  simpa [Backend.itemView] using hview

/-- What the initial read finds, and where it leads. -/
theorem startRunItem_congr {cfg : Config} (h : m.AgreeOn (some r) m')
    (hr : m.db.runOf rid = some r) : startRunItem cfg rid m'.db = startRunItem cfg rid m.db := by
  obtain ⟨row, hrow, hrun⟩ := Option.map_eq_some_iff.mp hr
  have hload : loadRunItem cfg.catalog m'.db rid = loadRunItem cfg.catalog m.db rid := by
    simp [loadRunItem, ← h.row hr, hrow, hrun, h.run r rfl]
  rw [startRunItem, startRunItem, hload]

/-- A step makes the same change, and goes on to the same place, in every store that agrees with
this one on the run. -/
def IsLocal {α : Type} (r : RunId) (m : Backend) (f : Backend → Backend × α) : Prop :=
  ∃ c : Change, ∀ m', m.AgreeOn (some r) m' → c.Takes r m' (f m').1 ∧ (f m').2 = (f m).2

theorem isLocal_of_takes {α : Type} {f : Backend → Backend × α} {c : Change} {x : α}
    (hf : ∀ m', m'.db.runOf rid = some r → c.Takes r m' (f m').1) (hx : ∀ m', (f m').2 = x)
    (hr : m.db.runOf rid = some r) : IsLocal r m f :=
  ⟨c, fun m' h => ⟨hf m' ((h.runOf rid).mp hr), by rw [hx, hx]⟩⟩

theorem isLocal_of_read {α : Type} {f : Backend → Backend × α}
    (hf : ∀ m', m.AgreeOn (some r) m' → (f m').1 = m' ∧ (f m').2 = (f m).2) : IsLocal r m f :=
  ⟨.none, fun m' h => ⟨by rw [(hf m' h).1]; exact Change.none_takes, (hf m' h).2⟩⟩

/-- **Steps of an execution are local to the run of its item.** -/
theorem executeRunItem_local (cfg : Config) (c : Choice) (hr : m.db.runOf rid = some r) {p : Phase}
    (hp : ∀ v pc, p = .at v pc → v.evalRunId = r) :
    IsLocal r m fun m => executeRunItem cfg c rid m p := by
  cases p with
  | start => exact isLocal_of_read fun m' h => ⟨rfl, startRunItem_congr h hr⟩
  | «at» v pc =>
    obtain rfl := hp v pc rfl
    cases pc with
    | skipCancelled | dropCancelled | skipAborted | markRunning | markNonRetryable
      | markDeadLettered | markGradingFailed =>
      exact isLocal_of_takes (fun m' h => takes_updateItem h fun _ => rfl) (fun _ => rfl) hr
    | publishDeadLetter => exact isLocal_of_takes (fun m' h => takes_notice h) (fun _ => rfl) hr
    | writeArtifact => exact isLocal_of_takes (fun m' h => takes_setArtifact h _) (fun _ => rfl) hr
    | gradeCommit gs review =>
      by_cases hgs : storableGrades gs = true
      · simp only [executeRunItem, stepRunItem, if_pos hgs]
        exact isLocal_of_takes (fun m' h => takes_insertGrades h _ _) (fun _ => rfl) hr
      · simp only [executeRunItem, stepRunItem, if_neg hgs]
        exact isLocal_of_read fun m' _ => ⟨rfl, rfl⟩
    | complete | judge =>
      refine isLocal_of_read fun m' _ => ?_
      simp only [executeRunItem, stepRunItem]
      split <;> exact ⟨rfl, rfl⟩
    | checkCancelled =>
      refine isLocal_of_read fun m' h => ?_
      simp only [executeRunItem, stepRunItem, h.run _ rfl]
      split <;> exact ⟨rfl, rfl⟩
    | gradeRead =>
      refine isLocal_of_read fun m' h => ?_
      simp only [executeRunItem, stepRunItem, graded_congr h hr]
      split <;> exact ⟨rfl, rfl⟩
    | reviewCheck =>
      refine isLocal_of_read fun m' h => ?_
      simp only [executeRunItem, stepRunItem, reviewed_congr h hr]
      split <;> exact ⟨rfl, rfl⟩
    | maybeComplete ret =>
      by_cases hz : remaining m.db v.evalRunId = 0
      · refine ⟨(Change.runRow fun run =>
          if (run.status == .running && hasDeadLetter m.db v.evalRunId) = true then
            { run with status := .failed, completedAt := some c.now } else run).andThen
          (Change.runRow fun run => if (run.status == .running) = true then
            { run with status := .completed, completedAt := some c.now } else run),
          fun m' h => ⟨?_, rfl⟩⟩
        simp only [executeRunItem, stepRunItem, maybeCompleteRun,
          if_pos ((remaining_congr h).mp hz), failIfDeadLetter, completeIfRunning,
          ← hasDeadLetter_congr h]
        exact takes_updateRun.andThen
          (takes_updateRun (m := { m' with db := m'.db.updateRun v.evalRunId _ _ }))
      · refine ⟨.none, fun m' h => ⟨?_, rfl⟩⟩
        simp only [executeRunItem, stepRunItem, maybeCompleteRun,
          if_neg (fun h' => hz ((remaining_congr h).mpr h'))]
        exact Change.none_takes
    | abortCheck res =>
      by_cases hit : m.db.runsHit v.evalRunId (overBudget cfg.spendLimit) = 1
      · refine ⟨?aborting, fun m' h => ?takes⟩
        case takes =>
          simp only [executeRunItem, stepRunItem, abortOverBudget, if_pos hit,
            if_pos ((runsHit_congr h _).mp hit), if_true, and_true]
          refine takes_updateRun_updateItemsOf ?_
          exact fun _ => rfl
      · refine isLocal_of_read fun m' h => ?_
        simp only [executeRunItem, stepRunItem, abortOverBudget, if_neg hit,
          if_neg (fun h' => hit ((runsHit_congr h _).mpr h'))]
        exact ⟨rfl, rfl⟩
    | finalise res =>
      by_cases hmiss : m.db.itemsHit rid (fun row => row.status == .running) = 0
      · refine isLocal_of_read fun m' h => ?_
        simp only [executeRunItem, stepRunItem, finaliseRunItem, if_pos hmiss,
          if_pos ((itemsHit_congr h hr _).mp hmiss)]
        exact ⟨rfl, rfl⟩
      · refine ⟨?finalising, fun m' h => ?takes⟩
        case takes =>
          simp only [executeRunItem, stepRunItem, finaliseRunItem, if_neg hmiss,
            if_neg (fun h' => hmiss ((itemsHit_congr h hr _).mpr h')), if_true, and_true]
          refine takes_updateItem_updateRun ((h.runOf rid).mp hr) ?_
          exact fun _ => rfl

/-- The run a request is about. -/
def Handler.runIn (db : Db) : Handler → Option RunId
  | .createEnqueue pending => pending.head?.bind db.runOf
  | .cancelCommit r => some r
  | .replayReadRun _ r => some r
  | .replayCommit _ r => some r
  | .replayEnqueue rid => db.runOf rid

/-- **Steps of a request are local to its run.** -/
theorem stepHandler_local (now : Timestamp) {x : Handler} (hx : x.runIn m.db = some r)
    (hreplays : ∀ i q, x.replays = some (i, q) → m.db.runOf i = some q) :
    IsLocal r m fun m => stepHandler m now x := by
  cases x with
  | createEnqueue pending =>
    cases pending with
    | nil => exact absurd hx (by simp [Handler.runIn])
    | cons i rest => exact isLocal_of_takes (fun m' h => takes_enqueue h) (fun _ => rfl) hx
  | cancelCommit q =>
    obtain rfl := Option.some.inj hx
    refine ⟨?cancelling, fun m' _ => ⟨?takes, rfl⟩⟩
    case takes =>
      refine takes_updateRun_updateItemsOf ?_
      exact fun _ => rfl
  | replayReadRun rid q =>
    obtain rfl := Option.some.inj hx
    refine isLocal_of_read fun m' h => ?_
    simp only [stepHandler, replayReadRun, h.run _ rfl]
    split <;> exact ⟨rfl, rfl⟩
  | replayCommit rid q =>
    obtain rfl := Option.some.inj hx
    refine ⟨?requeueing, fun m' h => ⟨?takes, rfl⟩⟩
    case takes =>
      have hrid : m'.db.runOf rid = some q := (h.runOf rid).mp (hreplays rid q rfl)
      refine takes_updateItem_updateRun hrid ?_
      exact fun _ => rfl
  | replayEnqueue rid => exact isLocal_of_takes (fun m' h => takes_enqueue h) (fun _ => rfl) hx

end Steps

/-! ## 5. The system as runs -/

section System

variable {σ η : Type} [DecidableEq σ] [DecidableEq η] {cfg : Config} {w w' v v' : World σ η}

/-- Who makes a transition: a worker slot or a request slot. -/
def Label.slot : Label σ η → σ ⊕ η
  | .create h .. | .cancel h _ | .replay h _ | .handler h _ | .drop h => .inr h
  | .deliver s _ | .redeliver s _ | .exec s _ | .crash s => .inl s

/-- The execution or the request a slot carries. -/
def World.party (w : World σ η) : σ ⊕ η → Option (Exec ⊕ Handler)
  | .inl s => (w.workers s).map .inl
  | .inr h => (w.handlers h).map .inr

/-- The run an execution or a request is about. -/
def partyRun (db : Db) : Exec ⊕ Handler → Option RunId
  | .inl e => db.runOf e.rid
  | .inr x => x.runIn db

/-- The run a transition is an operation on.  Creating a run is not an operation on one. -/
def World.actsOn (w : World σ η) : Label σ η → Option RunId
  | .create .. => none
  | .cancel _ r => some r
  | .replay _ rid | .deliver _ rid | .redeliver _ rid => w.store.db.runOf rid
  | .handler h _ | .drop h => (w.handlers h).bind (·.runIn w.store.db)
  | .exec s _ | .crash s => (w.workers s).bind fun e => w.store.db.runOf e.rid

/-- What executions of item `i` have returned. -/
def World.returned (w : World σ η) (i : ItemId) : List (ItemId × Return) :=
  w.results.filter fun x => x.1 == i

/-- Two states hold the same of run `p`, or of no run: the same in the store, the same results, and
the same executions and requests at work on it. -/
structure World.AgreeOn (p : Option RunId) (w v : World σ η) : Prop where
  store : w.store.AgreeOn p v.store
  results : ∀ i, w.store.db.runOf i = p → w.returned i = v.returned i
  parties : ∀ k x, partyRun w.store.db x = p → (w.party k = some x ↔ v.party k = some x)

theorem Backend.AgreeOn.partyRun {p : Option RunId} {m m' : Backend} (h : m.AgreeOn p m')
    (x : Exec ⊕ Handler) : partyRun m.db x = p ↔ partyRun m'.db x = p := by
  rcases x with e | x
  · exact h.runOf e.rid
  · cases x with
    | createEnqueue pending =>
      cases pending with
      | nil => exact Iff.rfl
      | cons i rest => exact h.runOf i
    | cancelCommit | replayReadRun | replayCommit => exact Iff.rfl
    | replayEnqueue rid => exact h.runOf rid

section Agree

variable {p : Option RunId} {u : World σ η}

theorem World.AgreeOn.rfl' {σ η : Type} {w : World σ η} : w.AgreeOn p w :=
  ⟨Backend.AgreeOn.rfl', fun _ _ => rfl, fun _ _ _ => Iff.rfl⟩

theorem World.AgreeOn.symm {σ η : Type} {w v : World σ η} (h : w.AgreeOn p v) : v.AgreeOn p w where
  store := h.store.symm
  results i hi := (h.results i ((h.store.runOf i).mpr hi)).symm
  parties k x hx := (h.parties k x ((h.store.partyRun x).mpr hx)).symm

theorem World.AgreeOn.trans {σ η : Type} {u v w : World σ η}
    (h : w.AgreeOn p v) (h' : v.AgreeOn p u) : w.AgreeOn p u where
  store := h.store.trans h'.store
  results i hi := (h.results i hi).trans (h'.results i ((h.store.runOf i).mp hi))
  parties k x hx := (h.parties k x hx).trans (h'.parties k x ((h.store.partyRun x).mp hx))

end Agree

@[simp] theorem World.setWorker_party (s : σ) (e : Option Exec) :
    (w.setWorker s e).party = Function.update w.party (.inl s) (e.map .inl) := by
  funext k
  rcases k with s' | h
  · by_cases hs : s' = s
    · subst hs
      simp [World.party]
    · simp [World.party, hs]
  · simp [World.party]

@[simp] theorem World.setHandler_party (h : η) (x : Option Handler) :
    (w.setHandler h x).party = Function.update w.party (.inr h) (x.map .inr) := by
  funext k
  rcases k with s | h'
  · simp [World.party]
  · by_cases hh : h' = h
    · subst hh
      simp [World.party]
    · simp [World.party, hh]

@[simp] theorem World.store_party {σ η : Type} {w : World σ η} (m : Backend) :
    ({ w with store := m } : World σ η).party = w.party := by
  funext k
  cases k <;> rfl

/-- What a transition does: a change of its run, the party its slot has afterwards, and the result
it reports. -/
structure Move where
  change : Change
  party : Option (Exec ⊕ Handler)
  result : List (ItemId × Return)

/-- The state `w'` is `w` after the move, made in slot `k` on run `r`. -/
structure Move.Takes (mv : Move) (r : RunId) (k : σ ⊕ η) (w w' : World σ η) : Prop where
  store : mv.change.Takes r w.store w'.store
  results : w'.results = mv.result ++ w.results
  party : w'.party = Function.update w.party k mv.party
  leaves : ∀ x, w.party k = some x → partyRun w.store.db x = some r
  enters : ∀ x, mv.party = some x → partyRun w.store.db x = some r
  reports : ∀ x ∈ mv.result, w.store.db.runOf x.1 = some r

namespace Move

variable {mv : Move} {r : RunId} {k : σ ⊕ η}

theorem Takes.partyRun (h : mv.Takes r k w w') (x : Exec ⊕ Handler) :
    partyRun w'.store.db x = partyRun w.store.db x := by
  have hrun : w'.store.db.runOf = w.store.db.runOf := funext h.store.runOf
  rcases x with e | x
  · exact h.store.runOf e.rid
  · cases x <;> simp [EvalHarness.partyRun, Handler.runIn, hrun]

/-- A move on one run is none on another. -/
theorem Takes.frame (h : mv.Takes r k w w') {p : Option RunId} (hp : p ≠ some r) :
    w.AgreeOn p w' where
  store := h.store.frame hp
  results i hi := by
    have hnone : (mv.result.filter fun x => x.1 == i) = [] := by
      refine List.filter_eq_nil_iff.mpr fun x hx hxi => hp ?_
      rw [← hi, ← beq_iff_eq.mp hxi, h.reports x hx]
    rw [World.returned, World.returned, h.results, List.filter_append, hnone, List.nil_append]
  parties k' x hx := by
    rw [h.party]
    by_cases hk : k' = k
    · subst hk
      rw [Function.update_self]
      constructor
      · intro hold
        exact absurd (hx.symm.trans (h.leaves x hold)) hp
      · intro hnew
        exact absurd (hx.symm.trans (h.enters x hnew)) hp
    · rw [Function.update_of_ne hk]

/-- The same move on the same run. -/
theorem Takes.congr (h : mv.Takes r k w w') (h' : mv.Takes r k v v')
    (hag : w.AgreeOn (some r) v) : w'.AgreeOn (some r) v' where
  store := h.store.congr h'.store hag.store
  results i hi := by
    rw [h.store.runOf] at hi
    have hold := hag.results i hi
    rw [World.returned, World.returned] at hold ⊢
    rw [h.results, h'.results, List.filter_append, List.filter_append, hold]
  parties k' x hx := by
    rw [h.partyRun] at hx
    rw [h.party, h'.party]
    by_cases hk : k' = k
    · subst hk
      rw [Function.update_self, Function.update_self]
    · rw [Function.update_of_ne hk, Function.update_of_ne hk]
      exact hag.parties k' x hx

end Move

/-! ## 6. Every transition is a move -/

/-- A creation enqueues items of one run. -/
def World.Batched (w : World σ η) : Prop :=
  ∀ h pending, w.handlers h = some (.createEnqueue pending) →
    ∃ r, ∀ i ∈ pending, w.store.db.runOf i = some r

theorem batched_step {l : Label σ η} (hI : w.Batched) (hs : step cfg w l = some w') :
    w'.Batched := by
  intro h pending hx'
  cases step_request hs hx' with
  | stayed hw _ =>
    obtain ⟨r, hr⟩ := hI h pending hw
    exact ⟨r, fun i hi => step_runOf hs (hr i hi)⟩
  | @created _ r _ _ hc hx =>
    obtain rfl := Handler.createEnqueue.inj hx
    obtain ⟨pairs, -, hins⟩ := hc.pairs
    obtain ⟨run, rows, -, hitems, -, -, hids, hrows, -⟩ := insertRun_tables hins
    refine ⟨r, fun i hi => ?_⟩
    rw [← hids] at hi
    obtain ⟨⟨k, row⟩, hmem, rfl⟩ := List.mem_map.mp hi
    obtain ⟨p, -, hrow⟩ := hrows _ hmem
    have hget := (Table.get_insertAll_some hitems).mpr (Or.inr hmem)
    rw [Db.runOf, hget, Option.map_some]
    exact congrArg (fun row => some row.evalRunId) hrow
  | cancelling _ _ hx | replaying _ _ hx => exact absurd hx (by simp)
  | moved hw hn =>
    generalize hp : Handler.createEnqueue pending = x' at hn
    cases stepHandler_next hn with
    | enqueue =>
      obtain rfl := Handler.createEnqueue.inj hp
      obtain ⟨r, hr⟩ := hI h _ hw
      exact ⟨r, fun i hi => step_runOf hs (hr i (List.mem_cons_of_mem _ hi))⟩
    | readRun | commit => exact absurd hp (by simp)

/-- A request stays about its run. -/
theorem stepHandler_runIn {m : Backend} {now : Timestamp} {x x' : Handler} {r : RunId}
    (hx : x.runIn m.db = some r) (hn : (stepHandler m now x).2 = some x')
    (hbatch : ∀ pending, x = .createEnqueue pending → ∃ r, ∀ i ∈ pending, m.db.runOf i = some r)
    (hreplays : ∀ i q, x.replays = some (i, q) → m.db.runOf i = some q) :
    x'.runIn m.db = some r := by
  cases stepHandler_next hn with
  | @enqueue i rest hne =>
    obtain ⟨q, hq⟩ := hbatch _ rfl
    obtain ⟨j, rest, rfl⟩ := List.exists_cons_of_ne_nil hne
    have hi : m.db.runOf i = some r := hx
    exact (hq j (by simp)).trans ((hq i (by simp)).symm.trans hi)
  | readRun => exact hx
  | commit => exact (hreplays _ _ rfl).trans hx

/-- What the slot of a transition holds in a state that agrees with another. -/
theorem handlers_of_party {σ η : Type} {w v : World σ η}
    {h : η} (hp : w.party (.inr h) = v.party (.inr h)) :
    v.handlers h = w.handlers h :=
  (Option.map_injective Sum.inr_injective hp).symm

theorem workers_of_party {σ η : Type} {w v : World σ η}
    {s : σ} (hp : w.party (.inl s) = v.party (.inl s)) :
    v.workers s = w.workers s :=
  (Option.map_injective Sum.inl_injective hp).symm

/-- A transition that writes nothing. -/
theorem takes_silent {r : RunId} {k : σ ⊕ η} {x : Option (Exec ⊕ Handler)}
    (hstore : v'.store = v.store) (hresults : v'.results = v.results)
    (hparty : v'.party = Function.update v.party k x)
    (hold : ∀ y, v.party k = some y → partyRun v.store.db y = some r)
    (hnew : ∀ y, x = some y → partyRun v.store.db y = some r) :
    (⟨.none, x, []⟩ : Move).Takes r k v v' where
  store := by rw [hstore]; exact Change.none_takes
  results := hresults
  party := hparty
  leaves := hold
  enters := hnew
  reports _ hx := absurd hx (by simp)

/-- The move is the same from every state that agrees with this one on the run and on the slot. -/
def StepsLocally (cfg : Config) (r : RunId) (w : World σ η) (l : Label σ η) : Prop :=
  ∃ mv : Move, ∀ v : World σ η, w.AgreeOn (some r) v → w.party l.slot = v.party l.slot →
    ∃ v', step cfg v l = some v' ∧ mv.Takes r l.slot v v'

/-- A request that its first read turns away leaves everything as it is. -/
theorem refused_local {l : Label σ η} {h : η} {r : RunId} (hidle : w.handlers h = none)
    (hslot : l.slot = .inr h)
    (hstep : ∀ v : World σ η, w.AgreeOn (some r) v → v.handlers h = none → step cfg v l = some v) :
    StepsLocally cfg r w l := by
  refine ⟨⟨.none, none, []⟩, fun v hag hp => ?_⟩
  rw [hslot] at hp ⊢
  have hv : v.handlers h = none := (handlers_of_party hp).trans hidle
  have hfree : v.party (.inr h) = none := by rw [World.party, hv, Option.map_none]
  refine ⟨v, hstep v hag hv, takes_silent rfl rfl ?_ (fun y hy => ?_) fun y hy => ?_⟩
  · rw [← hfree, Function.update_eq_self]
  · exact absurd (hfree.symm.trans hy) (by simp)
  · exact absurd hy (by simp)

/-- One that goes on behind its first read takes its place and writes nothing. -/
theorem entered_local {l : Label σ η} {h : η} {r : RunId} (x : Handler)
    (hidle : w.handlers h = none) (hslot : l.slot = .inr h)
    (hstep : ∀ v : World σ η, w.AgreeOn (some r) v → v.handlers h = none →
      step cfg v l = some (v.setHandler h (some x)))
    (hrun : ∀ v : World σ η, partyRun v.store.db (.inr x) = some r) : StepsLocally cfg r w l := by
  refine ⟨⟨.none, some (.inr x), []⟩, fun v hag hp => ?_⟩
  rw [hslot] at hp ⊢
  have hv : v.handlers h = none := (handlers_of_party hp).trans hidle
  have hfree : v.party (.inr h) = none := by rw [World.party, hv, Option.map_none]
  refine ⟨_, hstep v hag hv, takes_silent rfl rfl (by simp) (fun y hy => ?_) fun y hy => ?_⟩
  · exact absurd (hfree.symm.trans hy) (by simp)
  · rw [← Option.some.inj hy]
    exact hrun v

theorem cancel_local {h : η} {r : RunId} (hidle : w.handlers h = none) :
    StepsLocally cfg r w (.cancel h r) := by
  have hread : ∀ v : World σ η, w.AgreeOn (some r) v →
      cancelRead v.store.db r = cancelRead w.store.db r := by
    intro v hag
    rw [cancelRead, cancelRead, hag.store.run r rfl]
  by_cases hok : cancelRead w.store.db r = .ok true
  · refine entered_local (.cancelCommit r) hidle rfl (fun v hag hv => ?_) fun _ => rfl
    simp [step, hv, hread v hag, hok]
  · refine refused_local hidle rfl fun v hag hv => ?_
    simp [step, hv, hread v hag]

theorem replay_local {h : η} {rid : ItemId} {r : RunId} (hr : w.store.db.runOf rid = some r)
    (hidle : w.handlers h = none) : StepsLocally cfg r w (.replay h rid) := by
  have hread : ∀ v : World σ η, w.AgreeOn (some r) v →
      replayReadItem v.store.db rid = replayReadItem w.store.db rid := by
    intro v hag
    rw [replayReadItem, replayReadItem, hag.store.row hr]
  cases hok : replayReadItem w.store.db rid with
  | ok q =>
    have hq : q = r := by
      obtain ⟨row, hrow, -, rfl⟩ := replayReadItem_ok hok
      exact Option.some.inj ((congrArg (Option.map RunItem.evalRunId) hrow).symm.trans hr)
    subst hq
    refine entered_local (.replayReadRun rid q) hidle rfl (fun v hag hv => ?_) fun _ => rfl
    simp [step, hv, hread v hag, hok]
  | error e =>
    refine refused_local hidle rfl fun v hag hv => ?_
    simp [step, hv, hread v hag, hok]

theorem handler_local {h : η} {now : Timestamp} {x : Handler} {r : RunId} (hI : Sane cfg w)
    (hB : w.Batched) (hx : w.handlers h = some x) (hr : x.runIn w.store.db = some r) :
    StepsLocally cfg r w (.handler h now) := by
  have hreplays : ∀ i q, x.replays = some (i, q) → w.store.db.runOf i = some q :=
    fun i q hk => hI.replaying h x i q hx hk
  obtain ⟨ch, hch⟩ := stepHandler_local now hr hreplays
  refine ⟨⟨ch, (stepHandler w.store now x).2.map .inr, []⟩, fun v hag hp => ?_⟩
  obtain ⟨htakes, hnext⟩ := hch v.store hag.store
  have hxv : v.handlers h = some x := (handlers_of_party hp).trans hx
  refine ⟨{ v with store := (stepHandler v.store now x).1 }.setHandler h
    (stepHandler v.store now x).2, by simp [step, hxv], ?_⟩
  constructor
  · exact htakes
  · rfl
  · simp [Label.slot, hnext]
  · intro y hy
    simp only [Label.slot, World.party, hxv, Option.map_some, Option.some.injEq] at hy
    rw [← hy]
    exact (hag.store.partyRun (.inr x)).mp hr
  · intro y hy
    obtain ⟨x', hx', rfl⟩ := Option.map_eq_some_iff.mp hy
    have hrun := stepHandler_runIn hr hx' (fun pending hp => hB h pending (hp ▸ hx)) hreplays
    exact (hag.store.partyRun (.inr x')).mp hrun
  · exact fun _ hy => absurd hy (by simp)

theorem drop_local {h : η} {x : Handler} {r : RunId} (hx : w.handlers h = some x)
    (hr : x.runIn w.store.db = some r) : StepsLocally cfg r w (.drop h) := by
  refine ⟨⟨.none, none, []⟩, fun v hag hp => ?_⟩
  have hxv : v.handlers h = some x := (handlers_of_party hp).trans hx
  refine ⟨v.setHandler h none, by simp [step, hxv], ?_⟩
  refine takes_silent rfl rfl (by simp [Label.slot]) (fun y hy => ?_)
    fun y hy => absurd hy (by simp)
  simp only [Label.slot, World.party, hxv, Option.map_some, Option.some.injEq] at hy
  rw [← hy]
  exact (hag.store.partyRun (.inr x)).mp hr

theorem crash_local {s : σ} {e : Exec} {r : RunId} (he : w.workers s = some e)
    (hr : w.store.db.runOf e.rid = some r) : StepsLocally cfg r w (.crash s) := by
  refine ⟨⟨.none, none, []⟩, fun v hag hp => ?_⟩
  have hev : v.workers s = some e := (workers_of_party hp).trans he
  refine ⟨v.setWorker s none, by simp [step, hev], ?_⟩
  refine takes_silent rfl rfl (by simp [Label.slot]) (fun y hy => ?_)
    fun y hy => absurd hy (by simp)
  simp only [Label.slot, World.party, hev, Option.map_some, Option.some.injEq] at hy
  rw [← hy]
  exact (hag.store.partyRun (.inl e)).mp hr

theorem deliver_local {s : σ} {rid : ItemId} {r : RunId} (hr : w.store.db.runOf rid = some r)
    (hfree : w.workers s = none) (hwaits : rid ∈ w.store.queue) :
    StepsLocally cfg r w (.deliver s rid) := by
  refine ⟨⟨.beside rid (fun x => { x with waiting := x.waiting - 1 }) fun _ => rfl,
    some (.inl ⟨rid, .start⟩), []⟩, fun v hag hp => ?_⟩
  have hidle : v.workers s = none := (workers_of_party hp).trans hfree
  have hwaiting : w.store.queue.count rid = v.store.queue.count rid :=
    congrArg ItemView.waiting (hag.store.item rid (Or.inl hr))
  have hq : rid ∈ v.store.queue := by
    rw [← List.count_pos_iff, ← hwaiting, List.count_pos_iff]
    exact hwaits
  have hrv : v.store.db.runOf rid = some r := (hag.store.runOf rid).mp hr
  refine ⟨{ v with store := { v.store with queue := v.store.queue.erase rid } }.setWorker s
    (some ⟨rid, .start⟩), by simp [step, hidle, hq], ?_⟩
  constructor
  · exact takes_deliver hrv
  · rfl
  · simp [Label.slot]
  · exact fun y hy => absurd hy (by simp [Label.slot, World.party, hidle])
  · intro y hy
    rw [← Option.some.inj hy]
    exact hrv
  · exact fun _ hy => absurd hy (by simp)

theorem redeliver_local {s : σ} {rid : ItemId} {r : RunId} (hr : w.store.db.runOf rid = some r)
    (hfree : w.workers s = none) (hlogged : rid ∈ w.store.sent) :
    StepsLocally cfg r w (.redeliver s rid) := by
  refine ⟨⟨.none, some (.inl ⟨rid, .start⟩), []⟩, fun v hag hp => ?_⟩
  have hidle : v.workers s = none := (workers_of_party hp).trans hfree
  have hsent : w.store.sent.count rid = v.store.sent.count rid :=
    congrArg ItemView.sent (hag.store.item rid (Or.inl hr))
  have hq : rid ∈ v.store.sent := by
    rw [← List.count_pos_iff, ← hsent, List.count_pos_iff]
    exact hlogged
  refine ⟨v.setWorker s (some ⟨rid, .start⟩), by simp [step, hidle, hq], ?_⟩
  refine takes_silent rfl rfl (by simp [Label.slot]) (fun y hy => ?_) (fun y hy => ?_)
  · exact absurd hy (by simp [Label.slot, World.party, hidle])
  · rw [← Option.some.inj hy]
    exact (hag.store.runOf rid).mp hr

/-- The result an execution's step reports. -/
def Next.reported (rid : ItemId) : Next → List (ItemId × Return)
  | .done ret => [(rid, ret)]
  | _ => []

theorem exec_local {s : σ} {c : Choice} {e : Exec} {r : RunId} (hI : Sane cfg w)
    (he : w.workers s = some e) (hr : w.store.db.runOf e.rid = some r) :
    StepsLocally cfg r w (.exec s c) := by
  have hloaded : ∀ v pc, e.phase = .at v pc → v.evalRunId = r := by
    intro v pc hp
    obtain ⟨row, hrow, hv, -⟩ := hI.loaded s e.rid v pc (by rw [he, ← hp])
    rw [Db.runOf, hrow] at hr
    exact hv.trans (Option.some.inj hr)
  obtain ⟨ch, hch⟩ := executeRunItem_local cfg c hr hloaded
  refine ⟨⟨ch, (executeRunItem cfg c e.rid w.store e.phase).2.phase?.map fun p => .inl ⟨e.rid, p⟩,
    (executeRunItem cfg c e.rid w.store e.phase).2.reported e.rid⟩, fun v hag hp => ?_⟩
  obtain ⟨htakes, hnext⟩ := hch v.store hag.store
  have hev : v.workers s = some e := (workers_of_party hp).trans he
  have hrv : v.store.db.runOf e.rid = some r := (hag.store.runOf e.rid).mp hr
  refine ⟨v.afterExec s e.rid (executeRunItem cfg c e.rid v.store e.phase).1
    (executeRunItem cfg c e.rid v.store e.phase).2, by simp [step, hev], ?_⟩
  constructor
  · rw [World.afterExec_store]
    exact htakes
  · rw [← hnext]
    cases (executeRunItem cfg c e.rid v.store e.phase).2 <;> rfl
  · rw [← hnext]
    cases (executeRunItem cfg c e.rid v.store e.phase).2 <;>
      simp only [World.afterExec, World.setWorker_party] <;> rfl
  · intro y hy
    simp only [Label.slot, World.party, hev, Option.map_some, Option.some.injEq] at hy
    rw [← hy]
    exact hrv
  · intro y hy
    obtain ⟨p, -, rfl⟩ := Option.map_eq_some_iff.mp hy
    exact hrv
  · intro x hx
    cases hn : (executeRunItem cfg c e.rid w.store e.phase).2 with
    | done ret =>
      rw [hn, Next.reported, List.mem_singleton] at hx
      rw [hx]
      exact hrv
    | goto | raised => exact absurd hx (by simp [hn, Next.reported])

/-- **Transitions are local to the run they act on.** -/
theorem step_local {l : Label σ η} {r : RunId} (hI : Sane cfg w) (hB : w.Batched)
    (hs : step cfg w l = some w') (hr : w.actsOn l = some r) : StepsLocally cfg r w l := by
  cases step_cases hs with
  | createRefused | created => exact absurd hr (by simp [World.actsOn])
  | cancelRefused hidle | cancelling hidle =>
    obtain rfl := Option.some.inj hr
    exact cancel_local hidle
  | replayRefused hidle | replaying hidle => exact replay_local hr hidle
  | handled hx => exact handler_local hI hB hx (by simpa [World.actsOn, hx] using hr)
  | dropped hx => exact drop_local hx (by simpa [World.actsOn, hx] using hr)
  | delivered hidle hq => exact deliver_local hr hidle hq
  | redelivered hidle hq => exact redeliver_local hr hidle hq
  | executed he => exact exec_local hI he (by simpa [World.actsOn, he] using hr)
  | died he => exact crash_local he (by simpa [World.actsOn, he] using hr)

/-! ## 7. Runs are isolated -/

/-- A transition that starts a party, or a request that ends in its first read. -/
def Label.starts : Label σ η → Bool
  | .create .. | .cancel .. | .replay .. | .deliver .. | .redeliver .. => true
  | .handler .. | .drop .. | .exec .. | .crash .. => false

/-- The slot of a transition on a run is free before it, or carries a party of the run. -/
theorem slot_of_step {l : Label σ η} {r : RunId} (hs : step cfg w l = some w')
    (hr : w.actsOn l = some r) :
    if l.starts then w.party l.slot = none
    else ∃ x, w.party l.slot = some x ∧ partyRun w.store.db x = some r := by
  cases step_cases hs with
  | createRefused | created => exact absurd hr (by simp [World.actsOn])
  | cancelRefused hidle | replayRefused hidle | cancelling hidle | replaying hidle
    | delivered hidle | redelivered hidle =>
    simp [Label.starts, Label.slot, World.party, hidle]
  | @handled _ _ x hx | @dropped _ x hx =>
    exact ⟨.inr x, by simp [Label.slot, World.party, hx],
      by simpa [World.actsOn, hx, partyRun] using hr⟩
  | @executed _ _ e he | @died _ e he =>
    exact ⟨.inl e, by simp [Label.slot, World.party, he],
      by simpa [World.actsOn, he, partyRun] using hr⟩

theorem slot_congr {l : Label σ η} {r : RunId} (hs : step cfg w l = some w')
    (hs' : step cfg v l = some v') (hr : w.actsOn l = some r) (hr' : v.actsOn l = some r)
    (hag : w.AgreeOn (some r) v) : w.party l.slot = v.party l.slot := by
  have hw := slot_of_step hs hr
  have hv := slot_of_step hs' hr'
  cases hl : l.starts with
  | true =>
    rw [hl] at hw hv
    exact Eq.trans hw (Eq.symm hv)
  | false =>
    rw [hl] at hw
    obtain ⟨x, hx, hrx⟩ := hw
    rw [hx, (hag.parties _ x hrx).mp hx]

/-- The run a transition acts on is known to the parties of the run. -/
theorem actsOn_congr {σ η : Type} {w v : World σ η}
    {l : Label σ η} {r : RunId} (hr : w.actsOn l = some r)
    (hag : w.AgreeOn (some r) v) (hp : w.party l.slot = v.party l.slot) :
    v.actsOn l = some r := by
  cases l with
  | create => exact absurd hr (by simp [World.actsOn])
  | cancel h q => exact hr
  | replay h rid => exact (hag.store.runOf rid).mp hr
  | deliver s rid | redeliver s rid => exact (hag.store.runOf rid).mp hr
  | handler h _ | drop h =>
    obtain ⟨x, hx, hrx⟩ := Option.bind_eq_some_iff.mp hr
    refine Option.bind_eq_some_iff.mpr ⟨x, (handlers_of_party hp).trans hx, ?_⟩
    exact (hag.store.partyRun (.inr x)).mp hrx
  | exec s _ | crash s =>
    obtain ⟨e, he, hre⟩ := Option.bind_eq_some_iff.mp hr
    refine Option.bind_eq_some_iff.mpr ⟨e, (workers_of_party hp).trans he, ?_⟩
    exact (hag.store.runOf e.rid).mp hre

/-- What every reachable state satisfies and the two results below rest on. -/
def World.Regular (cfg : Config) (w : World σ η) : Prop := Sane cfg w ∧ w.Batched

theorem regular_of_run {tr : List (World σ η × Label σ η)}
    (h : Lts.Run (step cfg) World.init tr w) : w.Regular cfg :=
  ⟨sane_of_run h, h.stable (fun _ _ _ hI hs => batched_step hI hs)
    fun _ _ hx => absurd hx (by simp [World.init])⟩

/-- **Runs are parts of the system.** -/
theorem runs_parts (cfg : Config) : Lts.Parts (step cfg) (World.Regular (σ := σ) (η := η) cfg)
    (fun w l => (w.actsOn l).isSome = true) World.actsOn World.AgreeOn where
  refl _ _ := World.AgreeOn.rfl'
  symm h := h.symm
  trans h h' := h.trans h'
  keeps hI _ hs := ⟨sane_step hI.1 hs, batched_step hI.2 hs⟩
  frame := by
    intro w l w' p hI hok hs hp
    obtain ⟨r, hr⟩ := Option.isSome_iff_exists.mp hok
    obtain ⟨mv, hmv⟩ := step_local hI.1 hI.2 hs hr
    obtain ⟨v', hv', htakes⟩ := hmv w World.AgreeOn.rfl' rfl
    obtain rfl := Option.some.inj (hs.symm.trans hv')
    exact htakes.frame (hr ▸ hp)
  congr := by
    intro w v l w' v' hI _ hok _ hown hag hs hs'
    obtain ⟨r, hr⟩ := Option.isSome_iff_exists.mp hok
    rw [hr] at hown hag ⊢
    obtain ⟨mv, hmv⟩ := step_local hI.1 hI.2 hs hr
    obtain ⟨w₁, hw₁, htakes⟩ := hmv w World.AgreeOn.rfl' rfl
    obtain ⟨v₁, hv₁, htakes'⟩ := hmv v hag (slot_congr hs hs' hr hown hag)
    obtain rfl := Option.some.inj (hs.symm.trans hw₁)
    obtain rfl := Option.some.inj (hs'.symm.trans hv₁)
    exact htakes.congr htakes' hag

theorem runs_parties (cfg : Config) : Lts.Parties (step cfg) (World.Regular (σ := σ) (η := η) cfg)
    (fun w l => (w.actsOn l).isSome = true) World.actsOn World.AgreeOn Label.slot
    World.party where
  elsewhere := by
    intro w l w' k hI hok hs hk
    obtain ⟨r, hr⟩ := Option.isSome_iff_exists.mp hok
    obtain ⟨mv, hmv⟩ := step_local hI.1 hI.2 hs hr
    obtain ⟨v', hv', htakes⟩ := hmv w World.AgreeOn.rfl' rfl
    obtain rfl := Option.some.inj (hs.symm.trans hv')
    rw [htakes.party, Function.update_of_ne hk]
  enabled := by
    intro w v l w' hI _ hok hag hp hs
    obtain ⟨r, hr⟩ := Option.isSome_iff_exists.mp hok
    rw [hr] at hag ⊢
    obtain ⟨mv, hmv⟩ := step_local hI.1 hI.2 hs hr
    obtain ⟨w₁, hw₁, htakes⟩ := hmv w World.AgreeOn.rfl' rfl
    obtain ⟨v', hv', htakes'⟩ := hmv v hag hp
    obtain rfl := Option.some.inj (hs.symm.trans hw₁)
    have hown := actsOn_congr hr hag hp
    refine ⟨v', hv', by rw [hown]; rfl, hown, ?_⟩
    rw [htakes.party, htakes'.party, Function.update_self, Function.update_self]

/-- Two states are the same up to the order in which unrelated rows were inserted and unrelated
messages published. -/
structure World.Same (w v : World σ η) : Prop where
  runs : ∀ r, w.store.db.runs.get r = v.store.db.runs.get r
  items : ∀ i, w.store.db.items.get i = v.store.db.items.get i
  grades : ∀ i, (w.store.db.grades.filter fun g => g.runItemId == i) =
    v.store.db.grades.filter fun g => g.runItemId == i
  reviews : ∀ i, (w.store.db.reviews.filter fun x => x.runItemId == i) =
    v.store.db.reviews.filter fun x => x.runItemId == i
  artifacts : w.store.artifacts = v.store.artifacts
  queue : w.store.queue.Perm v.store.queue
  sent : w.store.sent.Perm v.store.sent
  dlq : w.store.dlq.Perm v.store.dlq
  results : ∀ i, w.returned i = v.returned i
  workers : w.workers = v.workers
  handlers : w.handlers = v.handlers

theorem World.Same.of_agreeOn {σ η : Type} {w v : World σ η}
    (h : ∀ p, w.AgreeOn p v) : w.Same v := by
  have hview : ∀ i, w.store.itemView i = v.store.itemView i :=
    fun i => (h (w.store.db.runOf i)).store.item i (Or.inl rfl)
  have hparty : ∀ k, w.party k = v.party k := by
    intro k
    cases hw : w.party k with
    | some x => exact (((h _).parties k x rfl).mp hw).symm
    | none =>
      cases hv : v.party k with
      | none => rfl
      | some x => exact absurd (hw.symm.trans (((h _).parties k x rfl).mpr hv)) (by simp)
  constructor
  · exact fun r => (h (some r)).store.run r rfl
  · exact fun i => congrArg ItemView.row (hview i)
  · exact fun i => congrArg ItemView.grades (hview i)
  · exact fun i => congrArg ItemView.reviews (hview i)
  · exact funext fun key => congrArg ItemView.artifact (hview key.runItemId)
  · exact List.perm_iff_count.mpr fun i => congrArg ItemView.waiting (hview i)
  · exact List.perm_iff_count.mpr fun i => congrArg ItemView.sent (hview i)
  · exact List.perm_iff_count.mpr fun i => congrArg ItemView.notices (hview i)
  · exact fun i => (h _).results i rfl
  · exact funext fun s => (workers_of_party (hparty (.inl s))).symm
  · exact funext fun k => (handlers_of_party (hparty (.inr k))).symm

/-- **Runs are isolated.**  In every reachable state,
* an operation on run `r` leaves everything that belongs to another run, or to none, as it is;
* what it does to `r`, and whether it can be done, is the same in every reachable state that agrees
  on `r` and on the slot that makes it;
* two interleavings of operations on `r` and operations on `q` in which each run sees the same
  operations in the same order end in the same state;
* and a sequence of operations on `r` and one on `q`, made in different slots, can be interleaved
  in every way. -/
theorem runs_isolated {tr : List (World σ η × Label σ η)} (h : Lts.Run (step cfg) World.init tr w) :
    (∀ l w' r, step cfg w l = some w' → w.actsOn l = some r → ∀ p, p ≠ some r → w.AgreeOn p w') ∧
    (∀ tr' v, Lts.Run (step cfg) World.init tr' v → ∀ l w' r, w.AgreeOn (some r) v →
      w.party l.slot = v.party l.slot → w.actsOn l = some r → step cfg w l = some w' →
      ∃ v', step cfg v l = some v' ∧ w'.AgreeOn (some r) v') ∧
    ∀ r q, r ≠ q →
      (∀ tr₁ w₁ tr₂ w₂, Lts.Run (step cfg) w tr₁ w₁ → Lts.Run (step cfg) w tr₂ w₂ →
        Lts.Along (fun v l => v.actsOn l = some r ∨ v.actsOn l = some q) tr₁ →
        Lts.Along (fun v l => v.actsOn l = some r ∨ v.actsOn l = some q) tr₂ →
        Lts.share World.actsOn (some r) tr₁ = Lts.share World.actsOn (some r) tr₂ →
        Lts.share World.actsOn (some q) tr₁ = Lts.share World.actsOn (some q) tr₂ →
        w₁.Same w₂) ∧
      ∀ tr₁ w₁ tr₂ w₂, Lts.Run (step cfg) w tr₁ w₁ → Lts.Run (step cfg) w tr₂ w₂ →
        Lts.Along (fun v l => v.actsOn l = some r) tr₁ →
        Lts.Along (fun v l => v.actsOn l = some q) tr₂ →
        (∀ x ∈ tr₁.map Prod.snd, ∀ y ∈ tr₂.map Prod.snd, x.slot ≠ y.slot) →
        ∀ ls, Lts.Merge (tr₁.map Prod.snd) (tr₂.map Prod.snd) ls →
        ∃ tr' w', Lts.Run (step cfg) w tr' w' ∧ tr'.map Prod.snd = ls ∧
          Lts.Along (fun v l => v.actsOn l = some r ∨ v.actsOn l = some q) tr' ∧
          Lts.share World.actsOn (some r) tr' = tr₁.map Prod.snd ∧
          Lts.share World.actsOn (some q) tr' = tr₂.map Prod.snd := by
  have hI := regular_of_run h
  refine ⟨fun l w' r hs hr p hp => ?_, fun tr' v hv l w' r hag hp hr hs => ?_,
    fun r q hrq => ⟨?_, ?_⟩⟩
  · exact (runs_parts cfg).frame hI (by rw [hr]; rfl) hs (by rw [hr]; exact hp)
  · obtain ⟨v', hv', hok, hown, -⟩ := (runs_parties cfg).enabled hI (regular_of_run hv)
      (by rw [hr]; rfl) (by rw [hr]; exact hag) hp hs
    have hag' := (runs_parts cfg).congr hI (regular_of_run hv) (by rw [hr]; rfl) hok hown
      (by rw [hr]; exact hag) hs hv'
    exact ⟨v', hv', by rw [hr] at hag'; exact hag'⟩
  · intro tr₁ w₁ tr₂ w₂ h₁ h₂ ho₁ ho₂ hr hq
    have hok : ∀ (v : World σ η) l, v.actsOn l = some r ∨ v.actsOn l = some q →
        (v.actsOn l).isSome = true := by
      rintro v l (hl | hl) <;> rw [hl] <;> rfl
    refine World.Same.of_agreeOn fun p => (runs_parts cfg).agree hI h₁ h₂
      (ho₁.mono hok) (ho₂.mono hok) ?_
    by_cases hpr : p = some r
    · rw [hpr, hr]
    · by_cases hpq : p = some q
      · rw [hpq, hq]
      · have hother : ∀ (v : World σ η) l, v.actsOn l = some r ∨ v.actsOn l = some q →
            v.actsOn l ≠ p := by
          rintro v l (hl | hl) hp
          · exact hpr (hp.symm.trans hl)
          · exact hpq (hp.symm.trans hl)
        rw [Lts.share_eq_nil (ho₁.mono hother), Lts.share_eq_nil (ho₂.mono hother)]
  · intro tr₁ w₁ tr₂ w₂ h₁ h₂ ho₁ ho₂ hslots ls hm
    have hok : ∀ (p : RunId) (v : World σ η) l, v.actsOn l = some p →
        (v.actsOn l).isSome = true ∧ v.actsOn l = some p :=
      fun p v l hl => ⟨by rw [hl]; rfl, hl⟩
    exact (runs_parts cfg).exists_merge (runs_parties cfg) (fun hpq => hrq (Option.some.inj hpq))
      hm hslots hI hI hI h₁ rfl (ho₁.mono (hok r)) h₂ rfl (ho₂.mono (hok q)) World.AgreeOn.rfl'
      World.AgreeOn.rfl' (fun _ _ => rfl) fun _ _ => rfl

end System

/-- Run 0 has the item 0, run 1 the item 1. -/
def launchTwo {σ η : Type} (h : η) : List (Label σ η) :=
  [.create h smallRequest 0 [0] 0, .handler h 0, .create h smallRequest 1 [1] 0, .handler h 0]

/-- One execution of each run, in both orders: the first pays its item, the second has its last
attempt refused. -/
theorem runs_isolated_small : ∃ (w w₁ w₂ : World (Fin 2) (Fin 1))
    (tr₁ tr₂ : List (World (Fin 2) (Fin 1) × Label (Fin 2) (Fin 1))),
    Lts.Run (step (smallConfig 1 1 5000000)) w tr₁ w₁ ∧
    Lts.Run (step (smallConfig 1 1 5000000)) w tr₂ w₂ ∧
    tr₁.map Prod.snd = (.deliver 0 0 :: execs 0 answers 6) ++ (.deliver 1 1 :: execs 1 declines 6) ∧
    tr₂.map Prod.snd = (.deliver 1 1 :: execs 1 declines 6) ++ (.deliver 0 0 :: execs 0 answers 6) ∧
    w₁.Same w₂ := by
  obtain ⟨tr, w, hrun, -, htest⟩ := Lts.exists_run_of_play (step (smallConfig 1 1 5000000))
    (World.init : World (Fin 2) (Fin 1)) (fun _ _ => true) (launchTwo 0)
    (fun _ w => (Lts.play (step (smallConfig 1 1 5000000)) (fun v l => v.actsOn l == some 0) w
        (.deliver 0 0 :: execs 0 answers 6)).isSome &&
      (Lts.play (step (smallConfig 1 1 5000000)) (fun v l => v.actsOn l == some 1) w
        (.deliver 1 1 :: execs 1 declines 6)).isSome)
    (by decide)
  rw [Bool.and_eq_true] at htest
  obtain ⟨tr₁, w₁, h₁, ho₁, hl₁⟩ := Lts.run_of_play htest.1
  obtain ⟨tr₂, w₂, h₂, ho₂, hl₂⟩ := Lts.run_of_play htest.2
  obtain ⟨-, -, hpair⟩ := runs_isolated hrun
  obtain ⟨hsame, hmerge⟩ := hpair 0 1 (by decide)
  have hslots : ∀ x ∈ tr₁.map Prod.snd, ∀ y ∈ tr₂.map Prod.snd, x.slot ≠ y.slot := by
    rw [hl₁, hl₂]
    simp [execs, Label.slot]
  have hall := hmerge tr₁ w₁ tr₂ w₂ h₁ h₂ (ho₁.mono fun _ _ hl => beq_iff_eq.mp hl)
    (ho₂.mono fun _ _ hl => beq_iff_eq.mp hl) hslots
  obtain ⟨tra, wa, ha, hla, hoa, h0a, h1a⟩ := hall _ (.append _ _)
  obtain ⟨trb, wb, hb, hlb, hob, h0b, h1b⟩ := hall _ (.append_swap _ _)
  refine ⟨w, wa, wb, tra, trb, ha, hb, by rw [hla, hl₁, hl₂], by rw [hlb, hl₁, hl₂], ?_⟩
  exact hsame tra wa trb wb ha hb hoa hob (h0a.trans h0b.symm) (h1a.trans h1b.symm)

end EvalHarness
