/-
# Terminal items

Six writers set an item's status.  The finalising update, `_mark_cancelled`, cancel, the spend
abort and replay look at the status they overwrite; `_mark_running`, `_mark_failed` and
`_mark_dead_lettered` rely on what an earlier transaction of the same execution has read.  For
`_mark_running` and `_mark_dead_lettered` that is the initial read, and a cancel or a spend abort
that commits behind it fails the item under the execution's feet: the failed item is then run and
charged (`failed_item_runs`).

`terminal_stays` is the guarantee for the schedules without such a step.
-/
import EvalHarness.Once
import Mathlib.Data.Fintype.Basic

namespace EvalHarness

open Lts

variable {σ η : Type} [DecidableEq σ] [DecidableEq η] {cfg : Config} {w w' : World σ η}

/-! ## 1. The schedule -/

/-- The next step writes to the item on the strength of the initial read: the item's run. -/
def Exec.begins (e : Exec) : Option RunId :=
  match e.phase with
  | .at v (.markRunning _) | .at v (.markDeadLettered _) => some v.evalRunId
  | _ => none

/-- The run whose queued items a transaction fails: a cancel's, or a spend check's over budget. -/
def struck (cfg : Config) (p : World σ η × Label σ η) : Option RunId :=
  match p.2 with
  | .handler h _ =>
    match p.1.handlers h with
    | some (.cancelCommit r) => some r
    | _ => none
  | .exec s _ =>
    match p.1.workers s with
    | some ⟨_, .at v (.abortCheck _)⟩ =>
      if (p.1.store.db.runs.get v.evalRunId).any (overBudget cfg.spendLimit) then some v.evalRunId
      else none
    | _ => none
  | _ => none

/-- No cancel and no spend abort commits on a run while an execution of one of its queued items
stands between its initial read and its first update. -/
def Unstruck (cfg : Config) (w : World σ η) (l : Label σ η) : Prop :=
  ∀ s, ∀ e ∈ w.workers s, ∀ r ∈ e.begins, struck cfg (w, l) = some r →
    w.statusOf e.rid ≠ some .queued

instance [Fintype σ] (w : World σ η) (l : Label σ η) : Decidable (Unstruck cfg w l) :=
  inferInstanceAs (Decidable (∀ s, ∀ e ∈ w.workers s, ∀ r ∈ e.begins,
    struck cfg (w, l) = some r → w.statusOf e.rid ≠ some .queued))

theorem struck_of_cancel {σ η : Type} {w : World σ η} {h : η} {now : Timestamp} {r : RunId}
    (hh : w.handlers h = some (.cancelCommit r)) : struck cfg (w, .handler h now) = some r := by
  simp [struck, hh]

theorem struck_of_abort {σ η : Type} {w : World σ η}
    {s : σ} {c : Choice} {j : ItemId} {v : Loaded} {res : CompletionResult}
    {run : EvalRun} (hw : w.workers s = some ⟨j, .at v (.abortCheck res)⟩)
    (hrun : w.store.db.runs.get v.evalRunId = some run)
    (hover : overBudget cfg.spendLimit run = true) :
    struck cfg (w, .exec s c) = some v.evalRunId := by
  simp [struck, hw, hrun, hover]

/-! ## 2. What the initial read found still holds -/

/-- No execution is about to write to a failed item on the strength of its initial read. -/
def Current (w : World σ η) : Prop :=
  ∀ s e r, w.workers s = some e → e.begins = some r → w.statusOf e.rid ≠ some .failed

theorem Exec.begins_owns {e : Exec} {r : RunId} (h : e.begins = some r) : e.phase.owns = true := by
  obtain ⟨i, p⟩ := e
  cases p with
  | start => rfl
  | «at» v pc => cases pc <;> first | rfl | exact absurd h (by simp [Exec.begins])

/-- An execution begins in its own item's run. -/
theorem Sane.begins_run {σ η : Type} {w : World σ η}
    (hS : Sane cfg w) {s : σ} {e : Exec} {r : RunId} {row : RunItem}
    (he : w.workers s = some e) (hb : e.begins = some r)
    (hrow : w.store.db.items.get e.rid = some row) : row.evalRunId = r := by
  obtain ⟨i, p⟩ := e
  cases p with
  | start => exact absurd hb (by simp [Exec.begins])
  | «at» v pc =>
    obtain ⟨row', hrow', hv, -⟩ := hS.loaded s i v pc he
    obtain rfl := Option.some.inj (hrow.symm.trans hrow')
    rw [← hv]
    cases pc <;> first | exact Option.some.inj hb | exact absurd hb (by simp [Exec.begins])

/-- A step of an execution that brings it before such a write leaves the item unfailed. -/
theorem current_of_moved (hI : Single cfg w) {s : σ} {c : Choice}
    (hs : step cfg w (.exec s c) = some w') {i : ItemId} {p p' : Phase} {r : RunId}
    (hw : w.workers s = some ⟨i, p⟩) (hn : (executeRunItem cfg c i w.store p).2 = .goto p')
    (hb : Exec.begins ⟨i, p'⟩ = some r) : w'.statusOf i ≠ some .failed := by
  obtain ⟨e, he, rfl⟩ := step_exec hs
  obtain rfl := Option.some.inj (hw.symm.trans he)
  simp only [World.statusOf, World.afterExec_store]
  cases p with
  | start =>
    obtain ⟨row, _, _, _, pc, hrow, -, -, -, rfl, hcase⟩ := startRunItem_goto hn
    have hread : (executeRunItem cfg c i w.store .start).1 = w.store := rfl
    simp only [hread, hrow, Option.map_some, ne_eq, Option.some.injEq]
    rcases hcase with ⟨rfl, -⟩ | ⟨rfl, -⟩ | ⟨-, -, -, hq⟩
    · exact absurd hb (by simp [Exec.begins])
    · exact absurd hb (by simp [Exec.begins])
    · rcases hq with hq | hq <;> simp [hq]
  | «at» v pc =>
    have hheld := World.Holds.worker hw (owns_of_goto hn (Exec.begins_owns hb))
    obtain ⟨row, hrow⟩ := hI.sane.item_of_holds hheld
    have hst := (hI.fits i _ _ row hheld hrow).status
    obtain ⟨pc', rfl, hstep⟩ := stepRunItem_next hn
    have hq : ∀ res, pc = .abortCheck res → row.status ≠ .queued := by
      rintro res rfl hq
      simp [Phase.allows, Pc.allows, hq] at hst
    rw [executeRunItem, stepRunItem_row hrow hq]
    cases hstep with
    | retry | exhausted =>
      simp only [Phase.allows, Pc.allows, beq_iff_eq] at hst
      simp [Pc.rowAfter, hst]
    | _ => exact absurd hb (by simp [Exec.begins])

theorem current_step {l : Label σ η} (hI : Single cfg w) (hC : Current w) (hok : Tame w l)
    (hu : Unstruck cfg w l) (hs : step cfg w l = some w') : Current w' := by
  intro s e r he' hb
  cases step_worker hs he' with
  | delivered _ _ he | redelivered _ _ he =>
    subst he
    exact absurd hb (by simp [Exec.begins])
  | moved hw hn he =>
    subst he
    exact current_of_moved hI hs hw hn hb
  | stayed hw hl =>
    have hheld : w.Holds e.rid (.worker s) e.phase := .worker hw (Exec.begins_owns hb)
    obtain ⟨row, hrow⟩ := hI.sane.item_of_holds hheld
    obtain ⟨row', hrow', hch⟩ := step_item hs hrow
    have hmoves : ¬ l.Moves w e.rid (.worker s) := by
      cases l with
      | exec s' c => rintro rfl; exact hl c rfl
      | _ => exact id
    have hne : row.status ≠ .failed := by
      simpa [World.statusOf, hrow] using hC s e r hw hb
    have hrun := hI.sane.begins_run hw hb hrow
    simp only [World.statusOf, hrow', Option.map_some, ne_eq, Option.some.injEq]
    cases hI.outside_of_kept hheld hmoves hch with
    | keep => exact hne
    | requeue _ hd => exact absurd hheld ((hI.dead e.rid row hrow hd).2 _ _)
    | cancel hh hq =>
      have := hu s e hw r hb (by rw [struck_of_cancel hh, hrun])
      exact absurd (by simp [World.statusOf, hrow, hq]) this
    | abort hj hr hfind hover hq =>
      have := hu s e hw r hb (by rw [struck_of_abort hj (hr ▸ hfind) hover, hr, hrun])
      exact absurd (by simp [World.statusOf, hrow, hq]) this

/-! ## 3. The guarantee -/

/-- What may happen to a terminal row over a transition. -/
structure KeepsTerminal (w : World σ η) (i : ItemId) (l : Label σ η) (row row' : RunItem) : Prop where
  /-- A failed item stays so, is not run and is not charged. -/
  failed : row.status = .failed → row'.status = .failed ∧ row'.attemptCount = row.attemptCount ∧
    row'.costUsd = row.costUsd ∧ wins i (w, l) = false
  /-- A succeeded item fails by the grading of its own execution only. -/
  succeeded : row.status = .succeeded → row'.status = .succeeded ∨
    row'.status = .failed ∧ ∃ s c v e, l = .exec s c ∧
      w.workers s = some ⟨i, .at v (.markGradingFailed e)⟩
  /-- A dead letter is left by a replay only. -/
  deadLettered : row.status = .deadLettered → row'.status = .deadLettered ∨
    ∃ h now r, l = .handler h now ∧ w.handlers h = some (.replayCommit i r)

/-- The status of an item that an execution is about to write to is one its place allows. -/
theorem Single.allows {σ η : Type} {w : World σ η}
    (hI : Single cfg w) {s : σ} {i : ItemId} {v : Loaded} {pc : Pc}
    {row : RunItem} (hw : w.workers s = some ⟨i, .at v pc⟩) (hp : (Phase.at v pc).owns = true)
    (hrow : w.store.db.items.get i = some row) : pc.allows row.status = true :=
  (hI.fits i _ _ row (.worker hw hp) hrow).status

/-- Every change of a row keeps the terminal statuses. -/
theorem ItemChange.keepsTerminal {σ η : Type} {w : World σ η}
    (hI : Single cfg w) (hC : Current w) {i : ItemId}
    {row row' : RunItem} {l : Label σ η} (hrow : w.store.db.items.get i = some row)
    (hch : ItemChange cfg w i row l row') : KeepsTerminal w i l row row' where
  failed hf := by
    have hwin : wins i (w, l) = false := by
      refine Bool.eq_false_iff.mpr fun hw => ?_
      obtain ⟨_, _, _, _, -, -, hrun⟩ := wins_iff.mp hw
      simp [World.statusOf, hrow, hf] at hrun
    have hnot : ∀ {s e r}, w.workers s = some e → e.rid = i → e.begins = some r → False := by
      rintro s e r he rfl hb
      exact hC s e r he hb (by simp [World.statusOf, hrow, hf])
    cases hch with
    | keep => exact ⟨hf, rfl, rfl, hwin⟩
    | markFailed | markCancelled | abort | cancel => exact ⟨rfl, rfl, rfl, hwin⟩
    | markRunning hw | markDeadLettered hw => exact (hnot hw rfl rfl).elim
    | finalise _ hrun => exact absurd (hf.symm.trans hrun) (by simp)
    | requeue _ hd => exact absurd (hf.symm.trans hd) (by simp)
  succeeded hsucc := by
    cases hch with
    | keep => exact Or.inl hsucc
    | @markFailed s c v pc e hw hpc =>
      right
      cases pc with
      | markGradingFailed e' => exact ⟨rfl, s, c, v, e', rfl, hw⟩
      | skipAborted | markNonRetryable =>
        have := hI.allows hw rfl hrow
        simp [Pc.allows, hsucc] at this
      | _ => exact absurd hpc (by simp [Pc.failsWith])
    | markRunning hw | markDeadLettered hw =>
      have := hI.allows hw rfl hrow
      simp [Pc.allows, hsucc] at this
    | markCancelled _ _ hne => exact absurd hsucc hne
    | finalise _ hrun => exact absurd (hsucc.symm.trans hrun) (by simp)
    | abort _ _ _ hq | cancel _ hq => exact absurd (hsucc.symm.trans hq) (by simp)
    | requeue _ hd => exact absurd (hsucc.symm.trans hd) (by simp)
  deadLettered hd := by
    cases outside_of_free (hI.dead i row hrow hd).2 hch with
    | keep => exact Or.inl hd
    | abort _ _ _ _ hq | cancel _ hq => exact absurd (hd.symm.trans hq) (by simp)
    | requeue hh _ => exact Or.inr ⟨_, _, _, rfl, hh⟩

theorem current_of_run {tr : List (World σ η × Label σ η)}
    (h : Run (step cfg) World.init tr w) (hok : Along Tame tr)
    (hu : Along (Unstruck cfg) tr) : Single cfg w ∧ Current w :=
  h.invariant (I := fun w => Single cfg w ∧ Current w)
    (fun _ _ _ hI hok hs => ⟨single_step hI.1 hok.1 hs, current_step hI.1 hI.2 hok.1 hok.2 hs⟩)
    (hok.and hu) ⟨single_init, fun _ _ _ h => absurd h (by simp [World.init])⟩

/-- **Terminal statuses stay.**  In every run in which each message is delivered once, a replay's
update finds its item dead-lettered, and no cancel or spend abort strikes a queued item between
an execution's initial read and its first update: a failed item stays failed and is neither run
nor charged, a succeeded one can fail by its own execution's grading only, and a dead letter is
left by a replay only. -/
theorem terminal_stays {tr : List (World σ η × Label σ η)}
    (hrun : Run (step cfg) World.init tr w) (hok : Along Tame tr)
    (hu : Along (Unstruck cfg) tr) :
    ∀ a l b v, tr = a ++ (v, l) :: b → ∃ v', step cfg v l = some v' ∧
      ∀ i row, v.store.db.items.get i = some row →
        ∃ row', v'.store.db.items.get i = some row' ∧ KeepsTerminal v i l row row' := by
  rintro a l b v rfl
  obtain ⟨hv, v', hs, -⟩ := hrun.at
  obtain ⟨hI, hC⟩ := current_of_run hv (Along.append.mp hok).1 (Along.append.mp hu).1
  refine ⟨v', hs, fun i row hrow => ?_⟩
  obtain ⟨row', hrow', hch⟩ := step_item hs hrow
  exact ⟨row', hrow', hch.keepsTerminal hI hC hrow⟩

/-- A cancel commits when the execution has made its first update: the item runs to its end and
nothing terminal is overwritten. -/
theorem terminal_stays_small : ∃ (tr : List (World (Fin 2) (Fin 2) × Label (Fin 2) (Fin 2)))
    (w : World (Fin 2) (Fin 2)), Run (step (smallConfig 2 1 5000000)) World.init tr w ∧
      w.statusOf 0 = some .failed ∧ w.statusOf 1 = some .failed ∧
      ∀ a l b v, tr = a ++ (v, l) :: b → ∃ v', step (smallConfig 2 1 5000000) v l = some v' ∧
        ∀ i row, v.store.db.items.get i = some row →
          ∃ row', v'.store.db.items.get i = some row' ∧ KeepsTerminal v i l row row' := by
  obtain ⟨tr, w, hrun, hall, htest⟩ := exists_run_of_play
    (step (smallConfig 2 1 5000000)) (World.init : World (Fin 2) (Fin 2))
    (fun w l => decide (Tame w l) && decide (Unstruck (smallConfig 2 1 5000000) w l))
    (launch 0 2 ++ [.deliver 0 0] ++ execs 0 answers 2 ++ [.cancel 0 0, .handler 0 0] ++
      execs 0 answers 3 ++ [.deliver 1 1] ++ execs 1 answers 2)
    (fun _ w => w.statusOf 0 == some .failed && w.statusOf 1 == some .failed)
    (by decide)
  simp only [Bool.and_eq_true, beq_iff_eq] at htest
  have hok : Along Tame tr :=
    hall.mono fun _ _ h => of_decide_eq_true (Bool.and_eq_true_iff.mp h).1
  have hu : Along (Unstruck (smallConfig 2 1 5000000)) tr :=
    hall.mono fun _ _ h => of_decide_eq_true (Bool.and_eq_true_iff.mp h).2
  exact ⟨tr, w, hrun, htest.1, htest.2, terminal_stays hrun hok hu⟩

/-- The execution of item 1 has made its initial read when item 0's spend check aborts the run
and fails item 1, which then runs, succeeds and is charged. -/
theorem failed_item_runs : ¬ ∀ (tr : List (World (Fin 2) (Fin 1) × Label (Fin 2) (Fin 1)))
    (w : World (Fin 2) (Fin 1)), Run (step (smallConfig 2 1 1000000)) World.init tr w →
      Along Calm tr → ∀ a l b v, tr = a ++ (v, l) :: b → ∀ i, v.statusOf i = some .failed →
        ∃ v', step (smallConfig 2 1 1000000) v l = some v' ∧ v'.statusOf i = some .failed := by
  intro hall
  obtain ⟨tr, w, hrun, hcalm, htest⟩ := exists_run_of_play
    (step (smallConfig 2 1 1000000)) (World.init : World (Fin 2) (Fin 1))
    (fun w l => decide (Calm w l))
    (launch 0 2 ++ [.deliver 0 0, .deliver 1 1] ++ execs 1 answers 1 ++ execs 0 answers 7 ++
      execs 1 answers 5)
    (fun tr w => w.statusOf 1 == some .succeeded &&
      tr.any fun p => p.1.statusOf 1 == some .failed &&
        (step (smallConfig 2 1 1000000) p.1 p.2).all fun v' => v'.statusOf 1 != some .failed)
    (by decide)
  simp only [Bool.and_eq_true, List.any_eq_true, beq_iff_eq] at htest
  obtain ⟨-, ⟨v, l⟩, hp, hst, hnext⟩ := htest
  obtain ⟨a, b, rfl⟩ := List.append_of_mem hp
  obtain ⟨v', hs, hst'⟩ := hall _ w hrun (by simpa using hcalm) a l b v rfl 1 hst
  simp [hs, hst'] at hnext

end EvalHarness
