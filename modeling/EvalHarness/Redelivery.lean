/-
# A finished item is delivered again

The third gate of `execute_run_item` skips an item that has already succeeded.  Two gates stand
before it, on the status of the run, and both write to the item: `_mark_cancelled` leaves a
succeeded one alone, `_mark_failed` does not look.  So the redelivery of a succeeded item changes
nothing as long as its run has not failed, and a run can fail after an item of it has succeeded,
by another item's dead letter or by the spend abort.
-/
import EvalHarness.Recovery

namespace EvalHarness

open Lts

variable {σ η : Type} [DecidableEq σ] [DecidableEq η] {cfg : Config} {w w' : World σ η}

/-- The item's run has failed. -/
def RunFailed (w : World σ η) (i : ItemId) : Prop :=
  ∃ r, w.runOf i = some r ∧ w.runStatusOf r = some .failed

/-- Where the second execution of a succeeded item can stand, working alone from `w`. -/
inductive Redelivered (w : World σ η) (s : σ) (i : ItemId) (u : World σ η) : Prop
  | reading (he : u.workers s = some ⟨i, .start⟩) (hdb : u.store.db = w.store.db)
  | cancelled {v} (he : u.workers s = some ⟨i, .at v .skipCancelled⟩)
      (hdb : u.store.db = w.store.db) (hf : ¬ RunFailed w i)
  | aborted {v} (he : u.workers s = some ⟨i, .at v .skipAborted⟩)
      (hdb : u.store.db = w.store.db) (hf : RunFailed w i)
  | kept (he : u.workers s = none) (hdb : u.store.db = w.store.db) (hf : ¬ RunFailed w i)
  | overwritten (he : u.workers s = none) (hst : u.statusOf i = some .failed) (hf : RunFailed w i)

/-- `_mark_cancelled` leaves a succeeded item alone. -/
theorem markCancelled_of_succeeded {db : Db} {rid : ItemId} {row : RunItem}
    (hrow : db.items.get rid = some row) (hst : row.status = .succeeded) :
    markCancelled db rid = db := by
  have hmiss : ∀ row', db.items.get rid = some row' → (row'.status != .succeeded) = false := by
    intro row' hrow'
    obtain rfl := Option.some.inj (hrow.symm.trans hrow')
    simp [hst]
  simp only [markCancelled, Db.updateItem, Table.updateWhere_of_miss hmiss]

/-- The initial read of a succeeded item goes on to one of the two writing gates, or ends. -/
theorem startRunItem_of_succeeded {i : ItemId} {db : Db} {row : RunItem} {p : Phase}
    (hrow : db.items.get i = some row) (hst : row.status = .succeeded)
    (h : startRunItem cfg i db = .goto p) :
    ∃ v run, db.runs.get row.evalRunId = some run ∧
      (p = .at v .skipCancelled ∧ run.status = .cancelled ∨
        p = .at v .skipAborted ∧ run.status = .failed) := by
  obtain ⟨row', task, endpoint, run, pc, hrow', -, -, hrun, rfl, hcase⟩ := startRunItem_goto h
  obtain rfl := Option.some.inj (hrow.symm.trans hrow')
  refine ⟨⟨row.evalRunId, task, endpoint, row.cost, row.tokens⟩, run, hrun, ?_⟩
  rcases hcase with ⟨rfl, hr⟩ | ⟨rfl, hr⟩ | ⟨-, -, -, hq⟩
  · exact Or.inl ⟨rfl, hr⟩
  · exact Or.inr ⟨rfl, hr⟩
  · rcases hq with hq | hq <;> exact absurd (hst.symm.trans hq) (by simp)

theorem redelivered_step {s : σ} {i : ItemId} (hS : Sane cfg w)
    (hst : w.statusOf i = some .succeeded) {u u' : World σ η} {l : Label σ η}
    (hI : Redelivered w s i u) (hok : Solo s u l) (hs : step cfg u l = some u') :
    Redelivered w s i u' := by
  obtain ⟨c, rfl⟩ := hok.exec
  obtain ⟨e, he', rfl⟩ := step_exec hs
  obtain ⟨row, hrow, hrst⟩ := Option.map_eq_some_iff.mp hst
  obtain ⟨run, hrun⟩ := hS.run_of_item i row hrow
  have hfail : RunFailed w i ↔ run.status = .failed := by
    simp [RunFailed, World.runOf, World.runStatusOf, hrow, hrun]
  cases hI with
  | reading he hdb =>
    obtain rfl := Option.some.inj (he.symm.trans he')
    have hstore : (executeRunItem cfg c i u.store .start).1.db = w.store.db := hdb
    cases hn : startRunItem cfg i u.store.db with
    | goto p =>
      obtain ⟨v, run', hrun', hcase⟩ := startRunItem_of_succeeded (hdb ▸ hrow) hrst hn
      rw [hdb, hrun] at hrun'
      obtain rfl := Option.some.inj hrun'
      rcases hcase with ⟨rfl, hr⟩ | ⟨rfl, hr⟩
      · exact .cancelled (v := v) (by simp [executeRunItem, hn, Next.phase?])
          (by rw [World.afterExec_store]; exact hstore) (by simp [hfail, hr])
      · exact .aborted (v := v) (by simp [executeRunItem, hn, Next.phase?])
          (by rw [World.afterExec_store]; exact hstore) (hfail.mpr hr)
    | _ =>
      have hno : ∀ p, startRunItem cfg i w.store.db ≠ .goto p := by
        rw [← hdb, hn]
        simp
      have hend := (startRunItem_ends hno hrow (hS.catalog_of_item i row hrow) hrun).2.1
      exact .kept (by simp [executeRunItem, hn, Next.phase?])
        (by rw [World.afterExec_store]; exact hstore) (by rwa [hfail])
  | cancelled he hdb hf =>
    obtain rfl := Option.some.inj (he.symm.trans he')
    refine .kept (by simp [executeRunItem, stepRunItem, Next.phase?]) ?_ hf
    rw [World.afterExec_store]
    exact (markCancelled_of_succeeded (hdb ▸ hrow) hrst).trans hdb
  | aborted he hdb hf =>
    obtain rfl := Option.some.inj (he.symm.trans he')
    refine .overwritten (by simp [executeRunItem, stepRunItem, Next.phase?]) ?_ hf
    simp [World.statusOf, executeRunItem, stepRunItem, markFailed, hdb, hrow]
  | kept he | overwritten he => exact absurd (he.symm.trans he') (by simp)

/-- **Redelivery.**  An execution starts on an item that has succeeded, and works alone.  It is over
after a bounded number of steps; and it leaves every row as it was if and only if the item's run
has not failed. -/
theorem redelivery_no_op {tr tr' : List (World σ η × Label σ η)} {s : σ} {i : ItemId}
    (h : Run (step cfg) World.init tr w) (he : w.workers s = some ⟨i, .start⟩)
    (hst : w.statusOf i = some .succeeded) (hsolo : Run (step cfg) w tr' w')
    (hok : Along (Solo s) tr') :
    tr'.length ≤ 2 * cfg.retry.maxAttempts + 16 ∧
      (w'.workers s ≠ none → ∀ c, ∃ u, step cfg w' (.exec s c) = some u) ∧
      (w'.workers s = none → (w'.store.db = w.store.db ↔ ¬ RunFailed w i)) := by
  refine ⟨solo_length_le he hsolo hok, ?_, fun hidle => ?_⟩
  · intro hbusy c
    obtain ⟨e, he⟩ := Option.ne_none_iff_exists'.mp hbusy
    exact ⟨_, by simp only [step, he]; rfl⟩
  · have hR := hsolo.invariant (I := Redelivered w s i)
      (fun u l u' hI hok hs => redelivered_step (sane_of_run h) hst hI hok hs) hok (.reading he rfl)
    cases hR with
    | kept _ hdb hf => exact ⟨fun _ => hf, fun _ => hdb⟩
    | overwritten _ hfst hf =>
      refine ⟨fun hdb => ?_, fun hf' => absurd hf hf'⟩
      simp only [World.statusOf, hdb] at hfst hst
      exact absurd (hst.symm.trans hfst) (by simp)
    | reading he' | cancelled he' | aborted he' => exact absurd (hidle.symm.trans he') (by simp)

/-- The message of the only item of a completed run comes back. -/
theorem redelivery_no_op_small : ∃ w w' : World Nat Nat, w.statusOf 0 = some .succeeded ∧
    w.workers 0 = some ⟨0, .start⟩ ∧ w'.workers 0 = none ∧ w'.store.db = w.store.db := by
  obtain ⟨tr, w, hrun, -, htest⟩ := exists_run_of_play
    (step (smallConfig 1 1 5000000)) (World.init : World Nat Nat) (fun _ _ => true)
    (launch 0 1 ++ [.deliver 0 0] ++ execs 0 answers 11 ++ [.redeliver 0 0])
    (fun _ w => w.statusOf 0 == some .succeeded && w.workers 0 == some ⟨0, .start⟩ &&
      w.runOf 0 == some 0 && w.runStatusOf 0 == some .completed &&
      (play (step (smallConfig 1 1 5000000)) (fun _ l => l.execBy == some 0) w
        (execs 0 answers 1)).any fun r => r.2.workers 0 == none)
    (by decide)
  simp only [Bool.and_eq_true, beq_iff_eq] at htest
  obtain ⟨⟨⟨⟨hst, he⟩, hr⟩, hrst⟩, hplay⟩ := htest
  obtain ⟨tr', w', hsolo, hok, hidle⟩ := exists_run_of_play
    (step (smallConfig 1 1 5000000)) w (fun _ l => l.execBy == some 0) (execs 0 answers 1)
    (fun _ w => w.workers 0 == none) hplay
  have hok : Along (Solo 0) tr' := hok.mono fun _ _ h => by simpa [Solo] using h
  have hidle : w'.workers 0 = none := by simpa using hidle
  exact ⟨w, w', hst, he, hidle,
    ((redelivery_no_op hrun he hst hsolo hok).2.2 hidle).mpr (by simp [RunFailed, hr, hrst])⟩

/-- Item 0 has succeeded when item 1 becomes a dead letter and the run fails; delivered again,
item 0 ends `failed`. -/
theorem redelivery_overwrites : ¬ ∀ (tr tr' : List (World Nat Nat × Label Nat Nat))
    (w w' : World Nat Nat) (s : Nat) (i : ItemId),
    Run (step (smallConfig 2 1 5000000)) World.init tr w → w.workers s = some ⟨i, .start⟩ →
      w.statusOf i = some .succeeded → Run (step (smallConfig 2 1 5000000)) w tr' w' →
      Along (Solo s) tr' → w'.workers s = none → w'.store.db = w.store.db := by
  intro hall
  obtain ⟨tr, w, hrun, -, htest⟩ := exists_run_of_play
    (step (smallConfig 2 1 5000000)) (World.init : World Nat Nat) (fun _ _ => true)
    (launch 0 2 ++ [.deliver 0 0] ++ execs 0 answers 11 ++ [.deliver 0 1] ++ execs 0 declines 6 ++
      [.redeliver 0 0])
    (fun _ w => w.statusOf 0 == some .succeeded && w.workers 0 == some ⟨0, .start⟩ &&
      (play (step (smallConfig 2 1 5000000)) (fun _ l => l.execBy == some 0) w
        (execs 0 answers 2)).any fun r => r.2.workers 0 == none && r.2.statusOf 0 == some .failed)
    (by decide)
  simp only [Bool.and_eq_true, beq_iff_eq] at htest
  obtain ⟨⟨hst, he⟩, hplay⟩ := htest
  obtain ⟨tr', w', hsolo, hok, hend⟩ := exists_run_of_play
    (step (smallConfig 2 1 5000000)) w (fun _ l => l.execBy == some 0) (execs 0 answers 2)
    (fun _ w => w.workers 0 == none && w.statusOf 0 == some .failed) hplay
  simp only [Bool.and_eq_true, beq_iff_eq] at hend
  have hok : Along (Solo 0) tr' := hok.mono fun _ _ h => by simpa [Solo] using h
  have hdb := hall tr tr' w w' 0 0 hrun he hst hsolo hok hend.1
  have hfst := hend.2
  simp only [World.statusOf, hdb] at hfst hst
  exact absurd (hst.symm.trans hfst) (by simp)

end EvalHarness
