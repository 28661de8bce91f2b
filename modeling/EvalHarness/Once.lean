/-
# Each message delivered once

A broker that hands out every message exactly once and workers that do not die give the system a
token discipline: at any time at most one party may write an item's row, namely the one that
holds its message, before or after delivery.  `Once` says so, together with what the row of a
held item can look like at each place of an execution; the results on stuck runs, spending and
confluence start from it.

The argument has three parts, and each uses the one before.

* **Holders.**  `World.Holds` names the parties that may still write a row: the message in the
  queue, the execution at a place with `Phase.owns`, the request that has yet to publish.
  `step_holds` gives every holder after a step one origin before it, and two holders of one item
  after a step have origins that exclude each other (`one_step`).
* **Rows.**  Since nobody else writes a held row, the place of its holder says which statuses it
  can have and that nothing was rolled up yet (`Phase.Fits`).  The holder's own step is
  `fits_of_next`.  From outside a held row can only change from queued to failed
  (`OutsideChange`): a replay requeues dead letters, and those nobody holds (`dead_step`).
* **Attention.**  A holder lets go of its item in its own step only (`holds_forward`), and then the
  row is terminal (`terminal_of_release`).  So somebody looks after every active item
  (`active_step`).

`Calm` is the restriction on the schedule.  Besides redeliveries and deaths it rules out a replay
whose update finds its item no longer dead-lettered: such a request publishes a second message
all the same.  `Tame` lets workers and requests die.  The first two parts survive that and are
`Single`; the third does not, since an item whose worker died is nobody's.
-/
import EvalHarness.Ledger

namespace EvalHarness

open Lts

variable {σ η : Type} [DecidableEq σ] [DecidableEq η] {cfg : Config} {w w' : World σ η}

/-! ## 1. The schedule and the holders -/

/-- No redelivery and no death. -/
def Label.isReliable : Label σ η → Bool
  | .redeliver _ _ | .crash _ | .drop _ => false
  | _ => true

/-- The item whose replay transaction commits. -/
def replayed (p : World σ η × Label σ η) : Option ItemId :=
  match p.2 with
  | .handler h _ =>
    match p.1.handlers h with
    | some (.replayCommit i _) => some i
    | _ => none
  | _ => none

/-- The schedule is reliable and a replay's update finds its item dead-lettered. -/
def Calm (w : World σ η) (l : Label σ η) : Prop :=
  l.isReliable = true ∧ ∀ i ∈ replayed (w, l), w.statusOf i = some .deadLettered

instance (w : World σ η) (l : Label σ η) : Decidable (Calm w l) :=
  inferInstanceAs (Decidable
    (l.isReliable = true ∧ ∀ i ∈ replayed (w, l), w.statusOf i = some .deadLettered))

/-- No redelivery. -/
def Label.deliversOnce : Label σ η → Bool
  | .redeliver _ _ => false
  | _ => true

/-- The same without the promise that workers and requests live. -/
def Tame (w : World σ η) (l : Label σ η) : Prop :=
  l.deliversOnce = true ∧ ∀ i ∈ replayed (w, l), w.statusOf i = some .deadLettered

instance (w : World σ η) (l : Label σ η) : Decidable (Tame w l) :=
  inferInstanceAs (Decidable
    (l.deliversOnce = true ∧ ∀ i ∈ replayed (w, l), w.statusOf i = some .deadLettered))

theorem Calm.tame {σ η : Type} {w : World σ η} {l : Label σ η} (h : Calm w l) : Tame w l := by
  refine ⟨?_, h.2⟩
  cases l with
  | redeliver => exact absurd h.1 (by simp [Label.isReliable])
  | _ => rfl

/-- A slot that a reliable step does not spare takes the step itself. -/
theorem Label.exec_of_reliable {σ η : Type} {l : Label σ η} {s : σ} (hrel : l.isReliable = true)
    (hl : ¬ l.Spares s) : ∃ c, l = .exec s c := by
  cases l with
  | exec s' c =>
    refine ⟨c, ?_⟩
    by_contra hne
    exact hl ⟨fun c' hc => hne (by rw [(Label.exec.inj hc).1]), by simp⟩
  | crash => exact absurd hrel (by simp [Label.isReliable])
  | _ => exact absurd ⟨by simp, by simp⟩ hl

/-- Who may write an item's row. -/
inductive Holder (σ η : Type)
  | message
  | worker (s : σ)
  | request (h : η)
  deriving DecidableEq

/-- The execution may still write its item's row. -/
def Phase.owns : Phase → Bool
  | .at _ .publishDeadLetter | .at _ (.maybeComplete _) => false
  | _ => true

/-- The holders of an item and the place each of them will go on, or start, from. -/
inductive World.Holds (w : World σ η) (i : ItemId) : Holder σ η → Phase → Prop
  | message (h : i ∈ w.store.queue) : w.Holds i .message .start
  | worker {s p} (h : w.workers s = some ⟨i, p⟩) (hp : p.owns = true) : w.Holds i (.worker s) p
  | request {h x} (hx : w.handlers h = some x) (hi : i ∈ x.owes) : w.Holds i (.request h) .start

/-! ## 2. The row of a held item -/

/-- The statuses a held item can have at a step. -/
def Pc.allows : Pc → RunItemStatus → Bool
  | .skipCancelled, s => s == .queued || s == .failed
  | .skipAborted, s => s == .failed
  | .markRunning _, s | .markDeadLettered _, s => s == .queued || s == .failed || s == .running
  | .complete _, s | .markNonRetryable _, s | .checkCancelled _, s | .dropCancelled, s
  | .writeArtifact _, s | .finalise _, s => s == .running
  | .abortCheck _, s | .gradeRead _, s | .judge _, s | .reviewCheck _ _, s | .gradeCommit _ _, s
  | .markGradingFailed _, s => s == .succeeded
  | .publishDeadLetter, _ | .maybeComplete _, _ => true

def Phase.allows : Phase → RunItemStatus → Bool
  | .start, s => s == .queued || s == .failed
  | .at _ pc, s => pc.allows s

/-- Nothing was ever rolled up for the item. -/
def RunItem.Unspent (row : RunItem) : Prop :=
  row.costUsd = none ∧ row.promptTokens = none ∧ row.completionTokens = none

/-- A row and the place of the execution that holds it agree. -/
structure Phase.Fits (p : Phase) (row : RunItem) : Prop where
  status : p.allows row.status = true
  unspent : row.status ≠ .succeeded → row.Unspent
  prev : ∀ v pc, p = .at v pc → v.prevCost = 0 ∧ v.prevTokens = 0

/-- The row after a step of the execution that holds it. -/
def Pc.rowAfter (rid : ItemId) (v : Loaded) (row : RunItem) : Pc → RunItem
  | .skipCancelled | .dropCancelled =>
    if row.status = .succeeded then row
    else { row with status := .failed, error := some "eval run cancelled" }
  | .skipAborted => { row with status := .failed, error := some "eval run aborted" }
  | .markRunning _ => { row with status := .running, attemptCount := row.attemptCount + 1 }
  | .markNonRetryable e => { row with status := .failed, error := some e }
  | .markGradingFailed e =>
    { row with status := .failed, error := some (gradingError e) }
  | .markDeadLettered e => { row with status := .deadLettered, error := some e }
  | .finalise r => if row.status = .running then finalisedRow rid v r row else row
  | _ => row

/-- The row an execution leaves, unless its spend abort hits its own item. -/
theorem stepRunItem_row {c : Choice} {rid : ItemId} {v : Loaded} {m : Backend} {pc : Pc}
    {row : RunItem} (hrow : m.db.items.get rid = some row)
    (hq : ∀ r, pc = .abortCheck r → row.status ≠ .queued) :
    (stepRunItem cfg c rid v m pc).1.db.items.get rid = some (pc.rowAfter rid v row) := by
  cases pc with
  | skipCancelled | dropCancelled =>
    by_cases hs : row.status = .succeeded <;>
      simp [stepRunItem, markCancelled, Pc.rowAfter, hrow, hs]
  | skipAborted | markNonRetryable | markGradingFailed =>
    simp [stepRunItem, markFailed, Pc.rowAfter, hrow]
  | markRunning => simp [stepRunItem, markRunning, Pc.rowAfter, hrow]
  | markDeadLettered => simp [stepRunItem, markDeadLettered, Pc.rowAfter, hrow]
  | publishDeadLetter | writeArtifact => exact hrow
  | maybeComplete => simpa [stepRunItem, Pc.rowAfter] using hrow
  | complete | judge | checkCancelled | gradeRead | reviewCheck | gradeCommit =>
    simp only [stepRunItem]
    split <;> exact hrow
  | finalise r =>
    simp only [stepRunItem, Pc.rowAfter]
    split
    · rename_i hit
      rw [finaliseRunItem_item hit, hrow]
      simp
    · rename_i hmiss
      have hne : row.status ≠ .running := fun h => hmiss (finaliseRunItem_iff.mpr ⟨row, hrow, h⟩)
      simp [hne, hrow]
  | abortCheck r =>
    simp only [stepRunItem]
    split
    · rename_i habort
      rw [abortOverBudget_item habort, hrow]
      simp [hq r rfl, Pc.rowAfter]
    · exact hrow

/-- Where an execution ends after its initial read. -/
inductive PcEnds (cfg : Config) (c : Choice) (rid : ItemId) (v : Loaded) (m : Backend) : Pc → Prop
  | skipCancelled : PcEnds cfg c rid v m .skipCancelled
  | skipAborted : PcEnds cfg c rid v m .skipAborted
  | dropCancelled : PcEnds cfg c rid v m .dropCancelled
  | lost {r} (hmiss : (finaliseRunItem m.db rid v r).2 = false) : PcEnds cfg c rid v m (.finalise r)
  | aborted {r} (ha : (abortOverBudget m.db v.evalRunId cfg.spendLimit c.now).2 = true) :
      PcEnds cfg c rid v m (.abortCheck r)
  | checked {ret} : PcEnds cfg c rid v m (.maybeComplete ret)

theorem stepRunItem_ends {c : Choice} {rid : ItemId} {v : Loaded} {m : Backend} {pc : Pc}
    (h : ∀ p, (stepRunItem cfg c rid v m pc).2 ≠ .goto p) : PcEnds cfg c rid v m pc := by
  cases pc with
  | skipCancelled => exact .skipCancelled
  | skipAborted => exact .skipAborted
  | dropCancelled => exact .dropCancelled
  | maybeComplete => exact .checked
  | markRunning | markNonRetryable | markDeadLettered | markGradingFailed | publishDeadLetter
    | writeArtifact => exact absurd rfl (h _)
  | complete | judge | checkCancelled | gradeRead | reviewCheck | gradeCommit =>
    simp only [stepRunItem] at h
    split at h <;> exact absurd rfl (h _)
  | finalise =>
    simp only [stepRunItem] at h
    split at h
    · exact absurd rfl (h _)
    · rename_i hmiss
      exact .lost (by simpa using hmiss)
  | abortCheck =>
    simp only [stepRunItem] at h
    split at h
    · rename_i ha
      exact .aborted ha
    · exact absurd rfl (h _)

/-- An initial read that goes no further found an item with nothing to do. -/
theorem startRunItem_ends {rid : ItemId} {db : Db} (h : ∀ p, startRunItem cfg rid db ≠ .goto p)
    {row : RunItem} {run : EvalRun} (hrow : db.items.get rid = some row)
    (hcat : (∃ task, cfg.catalog.tasks.get row.taskId = some task) ∧
      ∃ e, cfg.catalog.endpoints.get row.modelEndpointId = some e)
    (hrun : db.runs.get row.evalRunId = some run) :
    run.status ≠ .cancelled ∧ run.status ≠ .failed ∧
      (row.status = .succeeded ∨ row.status ≠ .queued ∧ row.status ≠ .deadLettered) := by
  obtain ⟨⟨task, htask⟩, e, hend⟩ := hcat
  simp only [startRunItem, loadRunItem, hrow, htask, hend, hrun, Option.bind_eq_bind,
    Option.bind_some, Option.pure_def] at h
  split at h
  · exact absurd rfl (h _)
  · rename_i hc
    split at h
    · exact absurd rfl (h _)
    · rename_i hf
      refine ⟨hc, hf, ?_⟩
      split at h
      · rename_i hs
        exact Or.inl hs
      · split at h
        · rename_i hs
          exact Or.inr hs
        · exact absurd rfl (h _)

/-! ## 3. The invariant -/

structure Once (cfg : Config) (w : World σ η) : Prop where
  sane : Sane cfg w
  /-- Nobody shares an item. -/
  one : ∀ i a b p q, w.Holds i a p → w.Holds i b q → a = b
  queue_nodup : w.store.queue.Nodup
  owes_nodup : ∀ h x, w.handlers h = some x → x.owes.Nodup
  fits : ∀ i a p row, w.Holds i a p → w.store.db.items.get i = some row → p.Fits row
  /-- A dead letter is nobody's, and has cost nothing. -/
  dead : ∀ i row, w.store.db.items.get i = some row → row.status = .deadLettered →
    row.Unspent ∧ ∀ a p, ¬ w.Holds i a p
  /-- Somebody looks after every active item. -/
  active : ∀ i row, w.store.db.items.get i = some row → row.status.isActive = true →
    ∃ a p, w.Holds i a p
  /-- A run that failed has no item waiting. -/
  failed : ∀ i row run, w.store.db.items.get i = some row →
    w.store.db.runs.get row.evalRunId = some run → run.status = .failed → row.status ≠ .queued

/-- What is left of it when workers and requests may die: an item may then be nobody's. -/
structure Single (cfg : Config) (w : World σ η) : Prop where
  sane : Sane cfg w
  one : ∀ i a b p q, w.Holds i a p → w.Holds i b q → a = b
  queue_nodup : w.store.queue.Nodup
  owes_nodup : ∀ h x, w.handlers h = some x → x.owes.Nodup
  fits : ∀ i a p row, w.Holds i a p → w.store.db.items.get i = some row → p.Fits row
  dead : ∀ i row, w.store.db.items.get i = some row → row.status = .deadLettered →
    row.Unspent ∧ ∀ a p, ¬ w.Holds i a p
  failed : ∀ i row run, w.store.db.items.get i = some row →
    w.store.db.runs.get row.evalRunId = some run → run.status = .failed → row.status ≠ .queued

theorem Once.single {σ η : Type} {w : World σ η} (h : Once cfg w) : Single cfg w :=
  ⟨h.sane, h.one, h.queue_nodup, h.owes_nodup, h.fits, h.dead, h.failed⟩

theorem single_init {σ η : Type} : Single cfg (World.init : World σ η) where
  sane := sane_init
  one i a b p q ha := by cases ha <;> simp_all [World.init]
  queue_nodup := List.nodup_nil
  owes_nodup h x hx := absurd hx (by simp [World.init])
  fits i a p row _ h := absurd h (by simp [World.init, Db.empty])
  dead i row h := absurd h (by simp [World.init, Db.empty])
  failed i row run h := absurd h (by simp [World.init, Db.empty])

theorem once_init {σ η : Type} : Once cfg (World.init : World σ η) :=
  have h := single_init
  ⟨h.sane, h.one, h.queue_nodup, h.owes_nodup, h.fits, h.dead,
    fun _ _ h => absurd h (by simp [World.init, Db.empty]), h.failed⟩

/-- A held item exists. -/
theorem Sane.item_of_holds {σ η : Type} {w : World σ η}
    (hS : Sane cfg w) {i : ItemId} {a : Holder σ η} {p : Phase}
    (h : w.Holds i a p) : ∃ row, w.store.db.items.get i = some row := by
  refine Option.isSome_iff_exists.mp ?_
  cases h with
  | message h => exact hS.sent i (hS.queued i h)
  | request hx hi => exact hS.owing _ _ i hx hi
  | worker h _ => exact hS.sent _ (hS.known _ _ h)

/-! ## 4. Where a holder comes from -/

/-- The label moves the item out of these hands. -/
def Label.Moves (w : World σ η) (i : ItemId) : Label σ η → Holder σ η → Prop
  | .deliver _ j, .message => j = i
  | .exec s _, .worker s' => s = s'
  | .handler h _, .request h' => h = h' ∧ ∃ x, w.handlers h = some x ∧ x.publishes = some i
  | _, _ => False

/-- Where the holder `a` an item has after a transition comes from. -/
inductive HolderOrigin (cfg : Config) (w w' : World σ η) (i : ItemId) :
    Label σ η → Holder σ η → Phase → Prop
  | kept {l a p} (hw : w.Holds i a p) (hl : ¬ l.Moves w i a) : HolderOrigin cfg w w' i l a p
  | delivered {s} (hw : w.Holds i .message .start) :
      HolderOrigin cfg w w' i (.deliver s i) (.worker s) .start
  | published {h now x} (hx : w.handlers h = some x) (hi : x.publishes = some i) :
      HolderOrigin cfg w w' i (.handler h now) .message .start
  | moved {s c p p'} (hw : w.workers s = some ⟨i, p⟩)
      (hn : (executeRunItem cfg c i w.store p).2 = .goto p') (hp : p'.owns = true) :
      HolderOrigin cfg w w' i (.exec s c) (.worker s) p'
  | created {h payload r itemIds now} (hc : Created cfg w h payload r itemIds now w')
      (hi : i ∈ itemIds) :
      HolderOrigin cfg w w' i (.create h payload r itemIds now) (.request h) .start
  | requeued {h now r} (hx : w.handlers h = some (.replayCommit i r)) :
      HolderOrigin cfg w w' i (.handler h now) (.request h) .start

/-- A request does not owe an item it has just published. -/
theorem stepHandler_publishes {m : Backend} {now : Timestamp} {x x' : Handler} {i : ItemId}
    (h : (stepHandler m now x).2 = some x') (hnd : x.owes.Nodup) (hp : x.publishes = some i) :
    i ∉ x'.owes := by
  cases stepHandler_next h with
  | enqueue =>
    obtain rfl := Option.some.inj hp
    exact (List.nodup_cons.mp hnd).1
  | readRun | commit => exact absurd hp (by simp [Handler.publishes])

/-- **Holders** come from these sources only. -/
theorem step_holds {l : Label σ η} (hI : Single cfg w) (hok : Tame w l)
    (hs : step cfg w l = some w') {i : ItemId} {a : Holder σ η} {p : Phase}
    (h : w'.Holds i a p) : HolderOrigin cfg w w' i l a p := by
  cases h with
  | message h =>
    cases step_queue hs with
    | same hl hq _ =>
      refine .kept (.message (hq ▸ h)) ?_
      cases l with
      | deliver s j => exact absurd rfl (hl s j)
      | _ => exact id
    | @taken s j _ hq _ =>
      rw [hq] at h
      refine .kept (.message (List.mem_of_mem_erase h)) ?_
      -- the message that was taken stood in the queue once
      rintro rfl
      exact hI.queue_nodup.not_mem_erase h
    | published hx hj hq _ =>
      rw [hq] at h
      rcases List.mem_append.mp h with h | h
      · exact .kept (.message h) id
      · rw [List.mem_singleton.mp h]
        exact .published hx hj
  | @worker s p h hp =>
    cases step_worker hs h with
    | stayed hw hl =>
      refine .kept (.worker hw hp) ?_
      cases l with
      | exec s' c => rintro rfl; exact hl c rfl
      | _ => exact id
    | delivered _ hq he =>
      obtain ⟨rfl, rfl⟩ := Exec.mk.inj he
      exact .delivered (.message hq)
    | redelivered => exact absurd hok.1 (by simp [Label.deliversOnce])
    | moved hw hn he =>
      obtain ⟨rfl, rfl⟩ := Exec.mk.inj he
      exact .moved hw hn hp
  | @request h x' hx' hi =>
    cases step_request hs hx' with
    | stayed hw hl =>
      refine .kept (.request hw hi) ?_
      cases l with
      | handler h' now => rintro ⟨rfl, -⟩; exact hl now rfl
      | _ => exact id
    | created hc hx => subst hx; exact .created hc hi
    | cancelling _ _ hx => subst hx; exact absurd hi (by simp [Handler.owes])
    | replaying _ _ hx => subst hx; exact absurd hi (by simp [Handler.owes])
    | moved hw hn =>
      rcases stepHandler_owes hn hi with hold | ⟨r, rfl⟩
      · refine .kept (.request hw hold) ?_
        rintro ⟨-, x, hx, hp⟩
        obtain rfl := Option.some.inj (hw.symm.trans hx)
        exact stepHandler_publishes hn (hI.owes_nodup h _ hw) hp hi
      · exact .requeued hw

/-- The items of an accepted creation are new and distinct. -/
theorem Created.fresh {σ η : Type} [DecidableEq η] {w w' : World σ η}
    {h : η} {payload : EvalRunCreate} {r : RunId} {itemIds : List ItemId}
    {now : Timestamp} (hc : Created cfg w h payload r itemIds now w') :
    itemIds.Nodup ∧ (∀ i ∈ itemIds, w.store.db.items.get i = none) ∧
      w.store.db.runs.get r = none := by
  obtain ⟨pairs, -, hins⟩ := hc.pairs
  obtain ⟨run, rows, hruns, hitems, -, -, hids, -⟩ := insertRun_tables hins
  obtain ⟨hnd, hnone⟩ := Table.fresh_of_insertAll hitems
  rw [hids] at hnd hnone
  exact ⟨hnd, hnone, (Table.fresh_of_insertAll hruns).2 r (by simp)⟩

/-- Before a `create`, nobody holds the items it adds. -/
theorem Single.not_holds_created {σ η : Type} [DecidableEq η] {w w' : World σ η}
    (hI : Single cfg w) {h : η} {payload : EvalRunCreate} {r : RunId}
    {itemIds : List ItemId} {now : Timestamp} (hc : Created cfg w h payload r itemIds now w')
    {i : ItemId} (hi : i ∈ itemIds) (a : Holder σ η) (p : Phase) : ¬ w.Holds i a p := by
  intro ha
  obtain ⟨row, hrow⟩ := hI.sane.item_of_holds ha
  rw [hc.fresh.2.1 i hi] at hrow
  exact absurd hrow (by simp)

/-- Before a tame replay's transaction, nobody holds its item. -/
theorem Single.not_holds_requeued {σ η : Type} {w : World σ η}
    (hI : Single cfg w) {h : η} {now : Timestamp}
    (hok : Tame w (.handler h now)) {i : ItemId} {r : RunId}
    (hx : w.handlers h = some (.replayCommit i r)) (a : Holder σ η) (p : Phase) :
    ¬ w.Holds i a p := by
  have hd := hok.2 i (by simp [replayed, hx])
  obtain ⟨row, hrow, hst⟩ := Option.map_eq_some_iff.mp hd
  exact (hI.dead i row hrow hst).2 a p

/-- What a replay's transaction does. -/
theorem step_of_replay {h : η} {now : Timestamp} (hs : step cfg w (.handler h now) = some w')
    {i : ItemId} {r : RunId} (hx : w.handlers h = some (.replayCommit i r)) :
    (∀ j, w'.store.db.items.get j = (w.store.db.items.get j).map fun row =>
        if j = i ∧ row.status = .deadLettered then { row with status := .queued, error := none }
        else row) ∧
      (∀ r', w'.store.db.runs.get r' = (w.store.db.runs.get r').map fun run =>
        if r' = r ∧ run.status = .failed then
          { run with status := .running, completedAt := none, error := none }
        else run) ∧
      w'.handlers h = some (.replayEnqueue i) := by
  obtain ⟨x, hx', rfl⟩ := step_handler_eq hs
  obtain rfl := Option.some.inj (hx.symm.trans hx')
  simp [stepHandler, replayRunItem, reopenRun, requeueItem]

/-- What a spend check does to a run over its budget. -/
theorem step_of_abort {s : σ} {c : Choice} (hs : step cfg w (.exec s c) = some w') {i : ItemId}
    {v : Loaded} {res : CompletionResult} {run : EvalRun}
    (he : w.workers s = some ⟨i, .at v (.abortCheck res)⟩)
    (hrun : w.store.db.runs.get v.evalRunId = some run)
    (hover : overBudget cfg.spendLimit run = true) :
    (∀ j, w'.store.db.items.get j = (w.store.db.items.get j).map fun row =>
        if row.evalRunId = v.evalRunId ∧ row.status = .queued then
          { row with status := .failed, error := some "aborted: eval run spend limit exceeded" }
        else row) ∧
      (∀ r, w'.store.db.runs.get r = (w.store.db.runs.get r).map fun run =>
        if r = v.evalRunId ∧ overBudget cfg.spendLimit run = true then
          { run with
            status := .failed, completedAt := some c.now, error := some cfg.spendLimit.error }
        else run) ∧
      w'.workers s = none := by
  obtain ⟨e, he', rfl⟩ := step_exec hs
  obtain rfl := Option.some.inj (he.symm.trans he')
  have ha : (abortOverBudget w.store.db v.evalRunId cfg.spendLimit c.now).2 = true :=
    abortOverBudget_iff.mpr ⟨run, hrun, hover⟩
  simp only [World.afterExec_store, World.afterExec_workers, executeRunItem, stepRunItem, ha,
    if_true]
  exact ⟨abortOverBudget_item ha, abortOverBudget_run ha, by simp [Next.phase?]⟩

theorem owns_of_goto {c : Choice} {i : ItemId} {m : Backend} {p p' : Phase}
    (hn : (executeRunItem cfg c i m p).2 = .goto p') (hp : p'.owns = true) : p.owns = true := by
  cases p with
  | start => rfl
  | «at» v pc =>
    obtain ⟨pc', rfl, hstep⟩ := stepRunItem_next hn
    cases hstep <;> first | rfl | exact absurd hp (by simp [Phase.owns])

/-! ## 5. Every step keeps it -/

/-- **Nobody shares an item.**  Split on where the two holders come from. -/
theorem one_step {l : Label σ η} (hI : Single cfg w) (hok : Tame w l) (hs : step cfg w l = some w')
    {i : ItemId} {a b : Holder σ η} {p q : Phase} (ha : w'.Holds i a p) (hb : w'.Holds i b q) :
    a = b := by
  -- a holder that was there before the step, and any other
  have mixed : ∀ {a b : Holder σ η} {p q : Phase}, w.Holds i a p → ¬ l.Moves w i a →
      HolderOrigin cfg w w' i l b q → a = b := by
    intro a b p q hw hl hb
    cases hb with
    | kept hw' _ => exact hI.one i a b p q hw hw'
    | delivered hw' =>
      obtain rfl := hI.one i _ _ _ _ hw hw'
      exact absurd rfl hl
    | published hx hi =>
      obtain rfl := hI.one i _ _ _ _ hw (.request hx (Handler.publishes_mem hi))
      exact absurd ⟨rfl, _, hx, hi⟩ hl
    | moved hw' hn hp =>
      obtain rfl := hI.one i _ _ _ _ hw (.worker hw' (owns_of_goto hn hp))
      exact absurd rfl hl
    | created hc hi => exact absurd hw (hI.not_holds_created hc hi _ _)
    | requeued hx => exact absurd hw (hI.not_holds_requeued hok hx _ _)
  have ha := step_holds hI hok hs ha
  have hb := step_holds hI hok hs hb
  -- two holders that are both new are the one the label makes
  cases ha with
  | kept hw hl => exact mixed hw hl hb
  | delivered hw =>
    cases hb with
    | kept hw' hl' => exact (mixed hw' hl' (.delivered hw)).symm
    | delivered => rfl
  | published hx hi =>
    cases hb with
    | kept hw' hl' => exact (mixed hw' hl' (.published hx hi)).symm
    | published => rfl
    | requeued hx' =>
      obtain rfl := Option.some.inj (hx.symm.trans hx')
      exact absurd hi (by simp [Handler.publishes])
  | moved hw hn hp =>
    cases hb with
    | kept hw' hl' => exact (mixed hw' hl' (.moved hw hn hp)).symm
    | moved => rfl
  | created hc hi =>
    cases hb with
    | kept hw' hl' => exact (mixed hw' hl' (.created hc hi)).symm
    | created => rfl
  | requeued hx =>
    cases hb with
    | kept hw' hl' => exact (mixed hw' hl' (.requeued hx)).symm
    | published hx' hi =>
      obtain rfl := Option.some.inj (hx.symm.trans hx')
      exact absurd hi (by simp [Handler.publishes])
    | requeued => rfl

theorem queue_nodup_step {l : Label σ η} (hI : Single cfg w) (hs : step cfg w l = some w') :
    w'.store.queue.Nodup := by
  cases step_queue hs with
  | same _ hq _ => rw [hq]; exact hI.queue_nodup
  | taken _ hq _ => rw [hq]; exact hI.queue_nodup.erase _
  | published hx hi hq _ =>
    rw [hq]
    refine List.nodup_append.mpr ⟨hI.queue_nodup, List.nodup_singleton _, ?_⟩
    intro j hj k hk
    rw [List.mem_singleton.mp hk]
    rintro rfl
    have := hI.one j _ _ _ _ (.message hj) (.request hx (Handler.publishes_mem hi))
    exact absurd this (by simp)

theorem owes_nodup_step {l : Label σ η} (hI : Single cfg w) (hs : step cfg w l = some w') {h : η}
    {x' : Handler} (hx' : w'.handlers h = some x') : x'.owes.Nodup := by
  cases step_request hs hx' with
  | stayed hw _ => exact hI.owes_nodup h x' hw
  | created hc hx => subst hx; exact hc.fresh.1
  | cancelling _ _ hx => subst hx; exact List.nodup_nil
  | replaying _ _ hx => subst hx; exact List.nodup_nil
  | @moved now x hw hn =>
    have hnd := hI.owes_nodup h x hw
    cases stepHandler_next hn with
    | enqueue => exact (List.nodup_cons.mp hnd).2
    | readRun => exact List.nodup_nil
    | commit => exact List.nodup_singleton _

/-- A place that allows a waiting item allows a failed one. -/
theorem Phase.allows_failed {p : Phase} (h : p.allows .queued = true) : p.allows .failed = true := by
  cases p with
  | start => rfl
  | «at» v pc => cases pc <;> first | rfl | exact absurd h (by simp [Phase.allows, Pc.allows])

/-- A dead letter fits no place from which the row can still be written. -/
theorem Phase.not_allows_dead {p : Phase} (h : p.owns = true) : p.allows .deadLettered = false := by
  cases p with
  | start => rfl
  | «at» v pc => cases pc <;> first | rfl | exact absurd h (by simp [Phase.owns])

/-- The changes of a row that its own execution does not make. -/
inductive OutsideChange (cfg : Config) (w : World σ η) (i : ItemId) (row : RunItem) :
    Label σ η → RunItem → Prop
  | keep {l} : OutsideChange cfg w i row l row
  | abort {s c j v r run} (hw : w.workers s = some ⟨j, .at v (.abortCheck r)⟩)
      (hr : v.evalRunId = row.evalRunId) (hrun : w.store.db.runs.get row.evalRunId = some run)
      (hover : overBudget cfg.spendLimit run = true) (hq : row.status = .queued) :
      OutsideChange cfg w i row (.exec s c)
        { row with status := .failed, error := some "aborted: eval run spend limit exceeded" }
  | cancel {h now} (hh : w.handlers h = some (.cancelCommit row.evalRunId))
      (hq : row.status = .queued) :
      OutsideChange cfg w i row (.handler h now)
        { row with status := .failed, error := some "eval run cancelled" }
  | requeue {h now r} (hh : w.handlers h = some (.replayCommit i r))
      (hd : row.status = .deadLettered) :
      OutsideChange cfg w i row (.handler h now) { row with status := .queued, error := none }

/-- A row is changed by the execution that holds it, or from outside. -/
theorem ItemChange.outside {σ η : Type} {w : World σ η}
    {l : Label σ η} {i : ItemId} {row row' : RunItem}
    (h : ItemChange cfg w i row l row') :
    (∃ s c v pc, l = .exec s c ∧ w.workers s = some ⟨i, .at v pc⟩ ∧
        (Phase.at v pc).owns = true) ∨ OutsideChange cfg w i row l row' := by
  cases h with
  | keep => exact Or.inr .keep
  | markRunning hw => exact Or.inl ⟨_, _, _, _, rfl, hw, rfl⟩
  | @markFailed s c v pc error hw hpc =>
    refine Or.inl ⟨_, _, _, _, rfl, hw, ?_⟩
    cases pc <;> first | rfl | exact absurd hpc (by simp [Pc.failsWith])
  | markDeadLettered hw => exact Or.inl ⟨_, _, _, _, rfl, hw, rfl⟩
  | markCancelled hw hpc _ =>
    refine Or.inl ⟨_, _, _, _, rfl, hw, ?_⟩
    rcases hpc with rfl | rfl <;> rfl
  | finalise hw _ => exact Or.inl ⟨_, _, _, _, rfl, hw, rfl⟩
  | abort hw hr hover hq =>
    obtain ⟨run, hrun, hover⟩ := hover
    exact Or.inr (.abort hw hr.symm (hr ▸ hrun) hover hq)
  | cancel hh hq => exact Or.inr (.cancel hh hq)
  | requeue hh hd => exact Or.inr (.requeue hh hd)

/-- While its holder does not move, a row is changed from outside only. -/
theorem Single.outside_of_kept {σ η : Type} {w : World σ η}
    {l : Label σ η} (hI : Single cfg w) {i : ItemId} {a : Holder σ η}
    {p : Phase} {row row' : RunItem} (hw : w.Holds i a p) (hl : ¬ l.Moves w i a)
    (hch : ItemChange cfg w i row l row') : OutsideChange cfg w i row l row' := by
  rcases hch.outside with ⟨s, c, v, pc, rfl, he, hpc⟩ | hout
  · obtain rfl := hI.one i _ _ _ _ hw (.worker he hpc)
    exact absurd rfl hl
  · exact hout

/-- An item that nobody holds is changed from outside only. -/
theorem outside_of_free {σ η : Type} {w : World σ η}
    {l : Label σ η} {i : ItemId} {row row' : RunItem}
    (hw : ∀ a p, ¬ w.Holds i a p) (hch : ItemChange cfg w i row l row') :
    OutsideChange cfg w i row l row' := by
  rcases hch.outside with ⟨s, c, v, pc, rfl, he, hpc⟩ | hout
  · exact absurd (.worker he hpc) (hw _ _)
  · exact hout

/-- What others do to a held row while its holder does not move leaves it fit. -/
theorem fits_of_kept {σ η : Type} {w : World σ η}
    {l : Label σ η} (hI : Single cfg w) {i : ItemId} {a : Holder σ η} {p : Phase}
    {row row' : RunItem} (hw : w.Holds i a p) (hl : ¬ l.Moves w i a)
    (hrow : w.store.db.items.get i = some row) (hch : ItemChange cfg w i row l row') :
    p.Fits row' := by
  have hfit := hI.fits i a p row hw hrow
  cases hI.outside_of_kept hw hl hch with
  | keep => exact hfit
  | abort _ _ _ _ hq | cancel _ hq =>
    exact ⟨Phase.allows_failed (hq ▸ hfit.status), fun _ => hfit.unspent (by simp [hq]), hfit.prev⟩
  | requeue _ hd => exact absurd hw ((hI.dead i row hrow hd).2 a p)

/-- Where an execution can go after its initial read, and what it remembers. -/
theorem fits_of_start {i : ItemId} {m : Backend} {c : Choice} {p' : Phase} {row : RunItem}
    (hrow : m.db.items.get i = some row) (hfit : Phase.Fits .start row)
    (hfailed : ∀ run, m.db.runs.get row.evalRunId = some run → run.status = .failed →
      row.status ≠ .queued)
    (hn : (executeRunItem cfg c i m .start).2 = .goto p') : p'.Fits row := by
  obtain ⟨row₁, task, endpoint, run, pc, hrow₁, -, -, hrun, rfl, hcase⟩ := startRunItem_goto hn
  obtain rfl := Option.some.inj (hrow₁.symm.trans hrow)
  have hwait : row₁.status = .queued ∨ row₁.status = .failed := by
    simpa [Phase.allows] using hfit.status
  have hunspent := hfit.unspent (by rcases hwait with h | h <;> simp [h])
  refine ⟨?_, hfit.unspent, ?_⟩
  · rcases hcase with ⟨rfl, -⟩ | ⟨rfl, hst⟩ | ⟨rfl, -, -, -⟩
    · exact hfit.status
    · simpa [Phase.allows, Pc.allows] using hwait.resolve_left (hfailed run hrun hst)
    · simp only [nextAttempt]
      split <;> simpa [Phase.allows, Pc.allows, or_assoc] using Or.inl hwait
  · rintro v pc' hp
    obtain ⟨rfl, -⟩ := Phase.at.inj hp
    simp [RunItem.cost, RunItem.tokens, hunspent.1, hunspent.2.1, hunspent.2.2]

/-- One step of an execution that holds its item: the row it leaves fits the next place. -/
theorem fits_of_next {c : Choice} {rid : ItemId} {v : Loaded} {m : Backend} {pc pc' : Pc}
    {row : RunItem} (hfit : Phase.Fits (.at v pc) row) (hstep : PcStep cfg c rid v m pc pc')
    (hp : (Phase.at v pc').owns = true) : Phase.Fits (.at v pc') (pc.rowAfter rid v row) := by
  obtain ⟨hstatus, hunspent, hprev⟩ := hfit
  have hprev' : ∀ v₁ pc₁, Phase.at v pc' = .at v₁ pc₁ → v₁.prevCost = 0 ∧ v₁.prevTokens = 0 := by
    intro v₁ pc₁ h
    obtain ⟨rfl, -⟩ := Phase.at.inj h
    exact hprev v pc rfl
  have hrunning : pc.allows .succeeded = false → row.Unspent := by
    intro hpc
    refine hunspent fun h => ?_
    simp only [Phase.allows, h, hpc] at hstatus
    exact absurd hstatus (by simp)
  cases hstep with
  | marked => exact ⟨rfl, fun _ => hrunning rfl, hprev'⟩
  | answered | rejected | cancelled | passed | written =>
    exact ⟨hstatus, hunspent, hprev'⟩
  | retry | exhausted =>
    refine ⟨?_, hunspent, hprev'⟩
    simp only [Phase.allows, Pc.allows, beq_iff_eq] at hstatus
    simp [Phase.allows, Pc.allows, Pc.rowAfter, hstatus]
  | won =>
    simp only [Phase.allows, Pc.allows, beq_iff_eq] at hstatus
    simp only [Pc.rowAfter, hstatus, if_true]
    exact ⟨rfl, fun h => absurd rfl h, hprev'⟩
  | within | ungraded | raised | agreed | disagreed | reviewed | unreviewed | unstored =>
    exact ⟨hstatus, hunspent, hprev'⟩
  | _ => exact absurd hp (by simp [Phase.owns])

/-- The row that an execution which fits it leaves. -/
theorem Phase.Fits.row_of_exec {s : σ} {c : Choice} {i : ItemId} {v : Loaded} {pc : Pc}
    {row row' : RunItem} (hfit : (Phase.at v pc).Fits row)
    (hs : step cfg w (.exec s c) = some w') (hw : w.workers s = some ⟨i, .at v pc⟩)
    (hrow : w.store.db.items.get i = some row) (hrow' : w'.store.db.items.get i = some row') :
    row' = pc.rowAfter i v row := by
  have hq : ∀ r, pc = .abortCheck r → row.status ≠ .queued := by
    rintro r rfl hq
    have := hfit.status
    simp [Phase.allows, Pc.allows, hq] at this
  obtain ⟨e, he, rfl⟩ := step_exec hs
  obtain rfl := Option.some.inj (hw.symm.trans he)
  rw [World.afterExec_store, executeRunItem, stepRunItem_row hrow hq] at hrow'
  exact (Option.some.inj hrow').symm

/-- **A held row fits** the place of its holder.  Split on where the holder comes from. -/
theorem fits_step {l : Label σ η} (hI : Single cfg w) (hok : Tame w l)
    (hs : step cfg w l = some w') {i : ItemId} {a : Holder σ η} {p : Phase} {row' : RunItem}
    (ha : w'.Holds i a p) (hrow' : w'.store.db.items.get i = some row') : p.Fits row' := by
  cases step_holds hI hok hs ha with
  | kept hw hl =>
    obtain ⟨row, hrow⟩ := hI.sane.item_of_holds hw
    have hch := itemChange hs hrow hrow'
    exact fits_of_kept hI hw hl hrow hch
  | delivered hw =>
    obtain ⟨row, hrow⟩ := hI.sane.item_of_holds hw
    have hch := itemChange hs hrow hrow'
    cases hch
    exact hI.fits i _ _ _ hw hrow
  | published hx hi =>
    have hw := World.Holds.request hx (Handler.publishes_mem hi)
    obtain ⟨row, hrow⟩ := hI.sane.item_of_holds hw
    have hch := itemChange hs hrow hrow'
    have hfit := hI.fits i _ _ _ hw hrow
    -- a publication writes no row
    cases hch with
    | keep => exact hfit
    | cancel hh _ | requeue hh _ =>
      obtain rfl := Option.some.inj (hx.symm.trans hh)
      exact absurd hi (by simp [Handler.publishes])
  | @moved s c p₀ p' hw hn hp =>
    have hheld := World.Holds.worker hw (owns_of_goto hn hp)
    obtain ⟨row, hrow⟩ := hI.sane.item_of_holds hheld
    have hfit := hI.fits i _ _ _ hheld hrow
    cases p₀ with
    | start =>
      obtain ⟨e, he, rfl⟩ := step_exec hs
      obtain rfl := Option.some.inj (hw.symm.trans he)
      rw [World.afterExec_store] at hrow'
      obtain rfl := Option.some.inj (hrow.symm.trans hrow')
      exact fits_of_start hrow hfit (fun run => hI.failed i row run hrow) hn
    | «at» v pc =>
      obtain rfl := hfit.row_of_exec hs hw hrow hrow'
      obtain ⟨pc', rfl, hstep⟩ := stepRunItem_next hn
      exact fits_of_next hfit hstep hp
  | created hc hi =>
    obtain ⟨_, _, _, _, _, -, -, -, pair, rfl, -⟩ := step_item_new hs hrow' (hc.fresh.2.1 i hi)
    exact ⟨rfl, fun _ => ⟨rfl, rfl, rfl⟩, by simp⟩
  | requeued hx =>
    -- the dead letter that a replay takes up has cost nothing
    obtain ⟨row, hrow, hd⟩ := Option.map_eq_some_iff.mp (hok.2 i (by simp [replayed, hx]))
    rw [(step_of_replay hs hx).1, hrow] at hrow'
    simp only [hd, and_self, if_true, Option.map_some, Option.some.injEq] at hrow'
    subst hrow'
    exact ⟨rfl, fun _ => (hI.dead i row hrow hd).1, by simp⟩

/-- A message stays in the queue until a slot takes it. -/
theorem message_forward {l : Label σ η} (hs : step cfg w l = some w') {i : ItemId}
    (h : i ∈ w.store.queue) : ∃ b q, w'.Holds i b q := by
  cases step_queue hs with
  | same _ hq _ => exact ⟨_, _, .message (hq ▸ h)⟩
  | published _ _ hq _ => exact ⟨_, _, .message (hq ▸ List.mem_append_left _ h)⟩
  | @taken s j hj hq _ =>
    by_cases hij : i = j
    · subst hij
      cases step_cases hs with
      | delivered => exact ⟨_, _, .worker (s := s) (p := .start) (by simp) rfl⟩
    · exact ⟨_, _, .message (hq ▸ (List.mem_erase_of_ne hij).mpr h)⟩

/-- An execution keeps its item, or its own step lets go of it. -/
theorem worker_forward {l : Label σ η} (hrel : l.isReliable = true) (hs : step cfg w l = some w')
    {s : σ} {i : ItemId} {p : Phase} (h : w.workers s = some ⟨i, p⟩) (hp : p.owns = true) :
    (∃ b q, w'.Holds i b q) ∨ ∃ c, l = .exec s c ∧
      ∀ p', (executeRunItem cfg c i w.store p).2 = .goto p' → p'.owns = false := by
  by_cases hl : l.Spares s
  · exact Or.inl ⟨_, _, .worker (step_worker_stays hs h hl) hp⟩
  · obtain ⟨c, rfl⟩ := Label.exec_of_reliable hrel hl
    by_cases hgo : ∃ p', (executeRunItem cfg c i w.store p).2 = .goto p' ∧ p'.owns = true
    · obtain ⟨p', hn, hp'⟩ := hgo
      obtain ⟨e, he, rfl⟩ := step_exec hs
      obtain rfl := Option.some.inj (h.symm.trans he)
      refine Or.inl ⟨_, _, .worker (s := s) (p := p') ?_ hp'⟩
      simp [hn, Next.phase?]
    · refine Or.inr ⟨c, rfl, fun p' hn => ?_⟩
      cases hb : p'.owns with
      | false => rfl
      | true => exact absurd ⟨p', hn, hb⟩ hgo

/-- The step of a request publishes what it owes, or goes on owing it. -/
theorem stepHandler_forward (m : Backend) (now : Timestamp) {x : Handler} {i : ItemId}
    (hi : i ∈ x.owes) :
    i ∈ (stepHandler m now x).1.queue ∨ ∃ x', (stepHandler m now x).2 = some x' ∧ i ∈ x'.owes := by
  cases x with
  | createEnqueue pending =>
    cases pending with
    | nil => exact absurd hi (by simp [Handler.owes])
    | cons j rest =>
      rcases List.mem_cons.mp hi with rfl | hi
      · exact Or.inl (by simp [stepHandler, enqueueRunItem])
      · have hne : rest ≠ [] := List.ne_nil_of_mem hi
        exact Or.inr ⟨.createEnqueue rest, by simp [stepHandler, hne], hi⟩
  | replayEnqueue j =>
    obtain rfl := List.mem_singleton.mp hi
    exact Or.inl (by simp [stepHandler, enqueueRunItem])
  | _ => exact absurd hi (by simp [Handler.owes])

/-- What a request owes, it owes until it has published it. -/
theorem request_forward {l : Label σ η} (hrel : l.isReliable = true) (hs : step cfg w l = some w')
    {h : η} {x : Handler} (hx : w.handlers h = some x) {i : ItemId} (hi : i ∈ x.owes) :
    ∃ b q, w'.Holds i b q := by
  by_cases hl : ∃ now, l = .handler h now
  · obtain ⟨now, rfl⟩ := hl
    obtain ⟨x₀, hx₀, rfl⟩ := step_handler_eq hs
    obtain rfl := Option.some.inj (hx.symm.trans hx₀)
    rcases stepHandler_forward w.store now hi with hsent | ⟨x', hn, hi'⟩
    · exact ⟨_, _, .message (by simpa using hsent)⟩
    · exact ⟨_, _, .request (h := h) (x := x') (by simp [hn]) hi'⟩
  · have hdrop : l ≠ .drop h := by
      rintro rfl
      exact absurd hrel (by simp [Label.isReliable])
    exact ⟨_, _, .request (step_request_stays hs hx (fun now e => hl ⟨now, e⟩) hdrop) hi⟩

/-- A holder of an item keeps it, hands it on, or is an execution that lets go of it. -/
theorem holds_forward {l : Label σ η} (hok : Calm w l) (hs : step cfg w l = some w') {i : ItemId}
    {a : Holder σ η} {p : Phase} (ha : w.Holds i a p) :
    (∃ b q, w'.Holds i b q) ∨ ∃ s c, l = .exec s c ∧ w.workers s = some ⟨i, p⟩ ∧
      p.owns = true ∧
      ∀ p', (executeRunItem cfg c i w.store p).2 = .goto p' → p'.owns = false := by
  cases ha with
  | message h => exact Or.inl (message_forward hs h)
  | @worker s _ h hp =>
    rcases worker_forward hok.1 hs h hp with hb | ⟨c, hl, hrel⟩
    · exact Or.inl hb
    · exact Or.inr ⟨s, c, hl, h, hp, hrel⟩
  | request hx hi => exact Or.inl (request_forward hok.1 hs hx hi)

/-- An execution that lets go of its item leaves it terminal. -/
theorem terminal_of_release {s : σ} {c : Choice} (hI : Single cfg w)
    (hs : step cfg w (.exec s c) = some w') {i : ItemId} {p : Phase}
    (hw : w.workers s = some ⟨i, p⟩) (hp : p.owns = true)
    (hrel : ∀ p', (executeRunItem cfg c i w.store p).2 = .goto p' → p'.owns = false)
    {row' : RunItem} (hrow' : w'.store.db.items.get i = some row') :
    row'.status.isActive = false := by
  have hheld := World.Holds.worker hw hp
  obtain ⟨row, hrow⟩ := hI.sane.item_of_holds hheld
  have hstatus := (hI.fits i _ _ _ hheld hrow).status
  obtain ⟨e, he, rfl⟩ := step_exec hs
  obtain rfl := Option.some.inj (hw.symm.trans he)
  rw [World.afterExec_store] at hrow'
  cases p with
  | start =>
    obtain rfl := Option.some.inj (hrow.symm.trans hrow')
    -- every place behind the initial read owns the item, so the execution has ended
    have hends : ∀ p', startRunItem cfg i w.store.db ≠ .goto p' := by
      intro p' hn
      obtain ⟨_, _, _, _, pc, -, -, -, -, rfl, hcase⟩ := startRunItem_goto hn
      have hfalse := hrel _ hn
      rcases hcase with ⟨rfl, -⟩ | ⟨rfl, -⟩ | ⟨rfl, -⟩
      · exact absurd hfalse (by simp [Phase.owns])
      · exact absurd hfalse (by simp [Phase.owns])
      · simp only [nextAttempt] at hfalse
        split at hfalse <;> exact absurd hfalse (by simp [Phase.owns])
    obtain ⟨run, hrun⟩ := hI.sane.run_of_item i row hrow
    have := (startRunItem_ends hends hrow (hI.sane.catalog_of_item i row hrow) hrun).2.2
    revert this hstatus
    cases row.status <;> simp [Phase.allows, RunItemStatus.isActive, RunItemStatus.isTerminal]
  | «at» v pc =>
    have hq : ∀ r, pc = .abortCheck r → row.status ≠ .queued := by
      rintro r rfl hq
      simp [Phase.allows, Pc.allows, hq] at hstatus
    rw [executeRunItem, stepRunItem_row hrow hq] at hrow'
    obtain rfl := Option.some.inj hrow'
    by_cases hgo : ∃ p', (stepRunItem cfg c i v w.store pc).2 = .goto p'
    · obtain ⟨p', hn⟩ := hgo
      have hp' := hrel p' hn
      obtain ⟨pc', rfl, hstep⟩ := stepRunItem_next hn
      cases hstep with
      | failed | deadLettered | gradingFailed => rfl
      | noticed => exact absurd hp (by simp [Phase.owns])
      -- the grades are in, and only the completion check is left
      | regraded | committed _ =>
        simp only [Phase.allows, Pc.allows, beq_iff_eq] at hstatus
        simp [Pc.rowAfter, hstatus, RunItemStatus.isActive, RunItemStatus.isTerminal]
      | _ => exact absurd hp' (by simp [Phase.owns])
    · have hends := stepRunItem_ends fun p' hn => hgo ⟨p', hn⟩
      cases hends with
      | skipCancelled | dropCancelled =>
        simp only [Pc.rowAfter]
        split
        · rename_i hsucc
          simp [hsucc, RunItemStatus.isActive, RunItemStatus.isTerminal]
        · rfl
      | skipAborted => rfl
      -- nobody else can have finalised the item
      | lost hmiss =>
        simp only [Phase.allows, Pc.allows, beq_iff_eq] at hstatus
        exact absurd (hmiss.symm.trans (finaliseRunItem_iff.mpr ⟨row, hrow, hstatus⟩)) (by simp)
      | aborted =>
        simp only [Phase.allows, Pc.allows, beq_iff_eq] at hstatus
        simp [Pc.rowAfter, hstatus, RunItemStatus.isActive, RunItemStatus.isTerminal]
      | checked => exact absurd hp (by simp [Phase.owns])

/-- **Somebody looks after every active item.** -/
theorem active_step {l : Label σ η} (hI : Once cfg w) (hok : Calm w l)
    (hs : step cfg w l = some w') {i : ItemId} {row' : RunItem}
    (hrow' : w'.store.db.items.get i = some row') (hact : row'.status.isActive = true) :
    ∃ a p, w'.Holds i a p := by
  cases hrow : w.store.db.items.get i with
  | none =>
    obtain ⟨h, payload, r, itemIds, now, rfl, hc, hi, -⟩ := step_item_new hs hrow' hrow
    have hne : itemIds ≠ [] := List.ne_nil_of_mem hi
    exact ⟨_, _, .request (h := h) (x := .createEnqueue itemIds) (by simp [hc.handlers, hne]) hi⟩
  | some row =>
    have hch := itemChange hs hrow hrow'
    -- an item is active because it was, or because a replay has just requeued it
    have hheld : (∃ a p, w.Holds i a p) ∨
        ∃ h now r, l = .handler h now ∧ w.handlers h = some (.replayCommit i r) := by
      cases hch with
      | keep => exact Or.inl (hI.active i _ hrow hact)
      | markRunning he => exact Or.inl ⟨_, _, .worker he rfl⟩
      | requeue hh _ => exact Or.inr ⟨_, _, _, rfl, hh⟩
      | _ => exact absurd hact (by
          simp [finalisedRow, RunItemStatus.isActive, RunItemStatus.isTerminal])
    rcases hheld with ⟨a, p, ha⟩ | ⟨h, now, r, rfl, hx⟩
    · rcases holds_forward hok hs ha with hb | ⟨s, c, rfl, hw, hp, hrel⟩
      · exact hb
      · exact absurd hact (by simp [terminal_of_release hI.single hs hw hp hrel hrow'])
    · exact ⟨_, _, .request (step_of_replay hs hx).2.2 (by simp [Handler.owes])⟩

/-- A dead letter has cost nothing, and nobody holds it: no place that owns its row allows one. -/
theorem dead_step {l : Label σ η} (hI : Single cfg w) (hok : Tame w l)
    (hs : step cfg w l = some w') {i : ItemId} {row' : RunItem}
    (hrow' : w'.store.db.items.get i = some row') (hd : row'.status = .deadLettered) :
    row'.Unspent ∧ ∀ a p, ¬ w'.Holds i a p := by
  refine ⟨?_, fun a p ha => ?_⟩
  · cases hrow : w.store.db.items.get i with
    | none =>
      obtain ⟨_, _, _, _, _, -, -, -, pair, rfl, -⟩ := step_item_new hs hrow' hrow
      exact absurd hd (by simp)
    | some row =>
      have hch := itemChange hs hrow hrow'
      cases hch with
      | keep => exact (hI.dead i _ hrow hd).1
      | markDeadLettered he =>
        have hfit := hI.fits i _ _ _ (.worker he rfl) hrow
        refine hfit.unspent fun hsucc => ?_
        have := hfit.status
        simp [Phase.allows, Pc.allows, hsucc] at this
      | _ => exact absurd hd (by simp [finalisedRow])
  · have hfit := (fits_step hI hok hs ha hrow').status
    have hp : p.owns = true := by
      cases ha with
      | worker _ hp => exact hp
      | _ => rfl
    rw [hd, Phase.not_allows_dead hp] at hfit
    exact absurd hfit (by simp)

/-- A run that has just failed has no item waiting. -/
theorem failed_step {l : Label σ η} (hI : Single cfg w) (hok : Tame w l)
    (hs : step cfg w l = some w') {i : ItemId} {row' : RunItem} {run' : EvalRun}
    (hrow' : w'.store.db.items.get i = some row')
    (hrun' : w'.store.db.runs.get row'.evalRunId = some run') (hf : run'.status = .failed) :
    row'.status ≠ .queued := by
  intro hq
  cases hrow : w.store.db.items.get i with
  | none =>
    -- a new item is in a new run
    obtain ⟨h, payload, r, itemIds, now, rfl, hc, hi, pair, rfl, -⟩ := step_item_new hs hrow' hrow
    obtain ⟨_, _, itemIds', _, hl, -, -, -, -, hst⟩ := step_run_new hs hrun' hc.fresh.2.2
    obtain ⟨-, -, -, rfl, -⟩ := Label.create.inj hl
    rw [if_neg (List.ne_nil_of_mem hi)] at hst
    exact absurd (hst.1.symm.trans hf) (by simp)
  | some row =>
    have hch := itemChange hs hrow hrow'
    obtain ⟨run, hrun⟩ := hI.sane.run_of_item i row hrow
    rw [hch.keeps.1] at hrun'
    have hch' := runChange hs hrun hrun'
    have hqueued : row.status = .queued ∨
        ∃ h now r, l = .handler h now ∧ w.handlers h = some (.replayCommit i r) := by
      cases hch with
      | keep => exact Or.inl hq
      | requeue hh _ => exact Or.inr ⟨_, _, _, rfl, hh⟩
      | _ => exact absurd hq (by simp [finalisedRow])
    rcases hqueued with hqueued | ⟨h, now, r, rfl, hx⟩
    · cases hch' with
      | keep | rollup => exact hI.failed i row _ hrow hrun hf hqueued
      | @abort s c j v res he hv hover =>
        -- the abort itself fails the waiting items
        rw [(step_of_abort hs he (hv ▸ hrun) hover).1, hrow] at hrow'
        simp only [hv, hqueued, and_self, if_true, Option.map_some, Option.some.injEq] at hrow'
        rw [← hrow'] at hq
        exact absurd hq (by simp)
      | checkFailed _ _ hrem _ _ =>
        have := Table.count_eq_zero.mp hrem i row hrow
        simp [hqueued, RunItemStatus.isActive, RunItemStatus.isTerminal] at this
      | _ => exact absurd hf (by simp)
    · have hr : row.evalRunId = r := by
        simpa [World.runOf, hrow] using hI.sane.replaying h _ i r hx rfl
      rw [(step_of_replay hs hx).2.1, hrun, hr] at hrun'
      by_cases hst : run.status = .failed
      · simp only [hst, and_self, if_true, Option.map_some, Option.some.injEq] at hrun'
        rw [← hrun'] at hf
        exact absurd hf (by simp)
      · simp only [hst, and_false, if_false, Option.map_some, Option.some.injEq] at hrun'
        exact hst (hrun' ▸ hf)

theorem single_step {l : Label σ η} (hI : Single cfg w) (hok : Tame w l)
    (hs : step cfg w l = some w') : Single cfg w' where
  sane := sane_step hI.sane hs
  one _ _ _ _ _ := one_step hI hok hs
  queue_nodup := queue_nodup_step hI hs
  owes_nodup _ _ := owes_nodup_step hI hs
  fits _ _ _ _ := fits_step hI hok hs
  dead _ _ := dead_step hI hok hs
  failed _ _ _ := failed_step hI hok hs

theorem single_of_run {tr : List (World σ η × Label σ η)} (h : Run (step cfg) World.init tr w)
    (hok : Along Tame tr) : Single cfg w :=
  h.invariant (fun _ _ _ hI hok hs => single_step hI hok hs) hok single_init

theorem once_step {l : Label σ η} (hI : Once cfg w) (hok : Calm w l)
    (hs : step cfg w l = some w') : Once cfg w' :=
  have h := single_step hI.single hok.tame hs
  ⟨h.sane, h.one, h.queue_nodup, h.owes_nodup, h.fits, h.dead,
    fun _ _ => active_step hI hok hs, h.failed⟩

end EvalHarness
