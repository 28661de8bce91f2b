/-
# Which succeeded items have no grade

An item is committed as `succeeded` before it is graded, and an execution has several ways to
leave in between.  `succeeded_graded` goes through them.  Grading that raises fails the item, as does
a commit of the grades that is refused.  Grades that exist already are kept.  What is left is the
spend check: an execution that aborts its run there returns `run-aborted` behind the item's
finalising update and in front of the graders, and its item stays succeeded, charged and ungraded
(`aborted_ungraded`).

Messages may be delivered again here, requests may die and transactions may be refused.  Only workers
may not die, and why grading failed has to be a text that `_mark_failed` can store: where it cannot,
the item stays succeeded.
-/
import EvalHarness.Grades
import EvalHarness.Once
import EvalHarness.Refusals

namespace EvalHarness

open Lts

variable {σ η : Type} [DecidableEq σ] [DecidableEq η] {cfg : Config} {w w' : World σ η}
  {lib : Libraries} {settings : Settings}

/-! ## 1. The schedule and the exit -/

/-- No worker dies. -/
def Label.sparesWorkers : Label σ η → Bool
  | .crash _ => false
  | _ => true

/-- An error that grading has raised is stored. -/
def StoresGradingErrors (w : World σ η) (l : Label σ η) : Prop :=
  ∀ i v e, w.mover l = some ⟨i, .at v (.markGradingFailed e)⟩ → storableText e = true

/-- An execution of item `i` aborts its run, and ends. -/
def abortsAt (cfg : Config) (i : ItemId) (p : World σ η × Label σ η) : Bool :=
  match p.1.mover p.2 with
  | some ⟨j, .at v (.abortCheck _)⟩ =>
    j == i && (p.1.store.db.runs.get v.evalRunId).any (overBudget cfg.spendLimit)
  | _ => false

/-- An execution of the item has ended at its spend check and nobody has won the item since. -/
def LeftAborted (cfg : Config) (i : ItemId) (tr : List (World σ η × Label σ η)) : Prop :=
  0 < sinceLast (wins i) (abortsAt cfg i) tr

theorem LeftAborted.snoc {σ η : Type} {w : World σ η}
    {i : ItemId} {tr : List (World σ η × Label σ η)} {l : Label σ η}
    (h : LeftAborted cfg i tr) (hl : wins i (w, l) = false) :
    LeftAborted cfg i (tr ++ [(w, l)]) := by
  rw [LeftAborted, sinceLast_snoc, hl]
  simp only [Bool.false_eq_true, if_false]
  unfold LeftAborted at h
  split <;> omega

theorem storesGradingErrors_of_accepted {σ η : Type} {w : World σ η}
    {l : Label σ η} (h : Accepted w l) :
    StoresGradingErrors w l := by
  intro i v e he
  have hnone : refusal w.store i (.at v (.markGradingFailed e)) = none := h _ he
  simpa [refusal, storableText_gradingError] using hnone

theorem leftAborted_of_abortsAt {σ η : Type} {w : World σ η}
    {i : ItemId} {tr : List (World σ η × Label σ η)} {l : Label σ η}
    (h : abortsAt cfg i (w, l) = true) (hl : wins i (w, l) = false) :
    LeftAborted cfg i (tr ++ [(w, l)]) := by
  rw [LeftAborted, sinceLast_snoc, hl, h]
  simp

/-! ## 2. On the way to the graders -/

/-- The item is finalised and its grades, or its failure, have still to be committed. -/
def Pc.willGrade : Pc → Bool
  | .abortCheck _ | .gradeRead _ | .judge _ | .markGradingFailed _ => true
  | .reviewCheck gs _ | .gradeCommit gs _ => !gs.isEmpty
  | _ => false

/-- An execution leaves the way to the graders with grades, with a failed item, or by aborting its
run. -/
theorem step_of_willGrade {s : σ} {c : Choice} {i : ItemId} {v : Loaded} {pc : Pc}
    (hj : Judges lib settings w (.exec s c)) (hc : Configured lib v.task)
    (hs : step cfg w (.exec s c) = some w') (he : w.workers s = some ⟨i, .at v pc⟩)
    (hpc : pc.willGrade = true) :
    (∃ pc', w'.workers s = some ⟨i, .at v pc'⟩ ∧ pc'.willGrade = true) ∨ w'.IsGraded i ∨
      w'.statusOf i ≠ some .succeeded ∨ abortsAt cfg i (w, .exec s c) = true := by
  obtain ⟨e, he', rfl⟩ := step_exec hs
  obtain rfl := Option.some.inj (he.symm.trans he')
  by_cases hgo : ∃ p, (stepRunItem cfg c i v w.store pc).2 = .goto p
  · obtain ⟨p, hp⟩ := hgo
    obtain ⟨pc', rfl, hstep⟩ := stepRunItem_next hp
    have hat : (w.afterExec s i (stepRunItem cfg c i v w.store pc).1
        (stepRunItem cfg c i v w.store pc).2).workers s = some ⟨i, .at v pc'⟩ := by
      simp [hp, Next.phase?]
    cases hstep with
    | within | ungraded | raised | unstored => exact Or.inl ⟨_, hat, rfl⟩
    | reviewed | unreviewed => exact Or.inl ⟨_, hat, hpc⟩
    | agreed hg | disagreed hg =>
      obtain ⟨judge, hjudge⟩ := hj s c i v _ rfl he
      have hne := gradeRunItem_ne_nil hc (hjudge.symm.trans hg)
      exact Or.inl ⟨_, hat, by simpa [Pc.willGrade] using hne⟩
    | regraded hg =>
      rw [List.any_eq_true] at hg
      obtain ⟨g, hmem, hgi⟩ := hg
      have hold : w.IsGraded i := ⟨g, hmem, by simpa using hgi⟩
      exact Or.inr (Or.inl (hold.step hs))
    | @committed gs review hgs =>
      obtain ⟨g, rest, rfl⟩ := List.exists_cons_of_ne_nil (l := gs)
        (by simpa [Pc.willGrade] using hpc)
      exact Or.inr (Or.inl ⟨⟨g, i⟩, by simp [executeRunItem, stepRunItem, hgs, insertGrades], rfl⟩)
    | gradingFailed =>
      right; right; left
      cases hrow : w.store.db.items.get i <;>
        simp [World.statusOf, executeRunItem, stepRunItem, markFailed, hrow]
    | _ => exact absurd hpc (by simp [Pc.willGrade])
  · cases stepRunItem_ends fun p hp => hgo ⟨p, hp⟩ with
    | aborted ha =>
      obtain ⟨run, hrun, hover⟩ := abortOverBudget_iff.mp ha
      exact Or.inr (Or.inr (Or.inr (by simp [abortsAt, World.mover, he, hrun, hover])))
    | _ => exact absurd hpc (by simp [Pc.willGrade])

/-! ## 3. The invariant -/

/-- What has become, or is to become, of a succeeded item with a grader. -/
def Accounted (cfg : Config) (tr : List (World σ η × Label σ η)) (w : World σ η) (i : ItemId) :
    Prop :=
  w.IsGraded i ∨ (∃ s v pc, w.workers s = some ⟨i, .at v pc⟩ ∧ pc.willGrade = true) ∨
    LeftAborted cfg i tr

/-- Item `i` is succeeded and its task has a grader. -/
structure Gradable (cfg : Config) (lib : Libraries) (w : World σ η) (i : ItemId) : Prop where
  succeeded : w.statusOf i = some .succeeded
  configured : ∀ row task, w.store.db.items.get i = some row →
    cfg.catalog.tasks.get row.taskId = some task → Configured lib task

/-- A succeeded item cannot be won. -/
theorem not_wins_of_succeeded {σ η : Type} {w : World σ η} {i : ItemId} {l : Label σ η}
    (h : w.statusOf i = some .succeeded) : wins i (w, l) = false := by
  refine Bool.eq_false_iff.mpr fun hw => ?_
  obtain ⟨_, _, _, _, -, -, hrun⟩ := wins_iff.mp hw
  exact absurd (h.symm.trans hrun) (by simp)

/-- An item that stays succeeded stays accounted for. -/
theorem accounted_of_kept {tr : List (World σ η × Label σ η)} {l : Label σ η} (hS : Sane cfg w)
    (hj : Judges lib settings w l) (hl : l.sparesWorkers = true) (hs : step cfg w l = some w')
    {i : ItemId} (hG : Gradable cfg lib w i) (hst : w'.statusOf i = some .succeeded)
    (hA : Accounted cfg tr w i) : Accounted cfg (tr ++ [(w, l)]) w' i := by
  have hwin := not_wins_of_succeeded (l := l) hG.succeeded
  rcases hA with hg | ⟨s, v, pc, he, hpc⟩ | ha
  · exact Or.inl (hg.step hs)
  · by_cases hmove : ∃ c, l = .exec s c
    · obtain ⟨c, rfl⟩ := hmove
      obtain ⟨row, hrow, -, -, htask⟩ := hS.loaded s i v pc he
      rcases step_of_willGrade hj (hG.configured row v.task hrow htask) hs he hpc with
        ⟨pc', he', hpc'⟩ | hg | hne | ha
      · exact Or.inr (Or.inl ⟨s, v, pc', he', hpc'⟩)
      · exact Or.inl hg
      · exact absurd hst hne
      · exact Or.inr (Or.inr (leftAborted_of_abortsAt ha hwin))
    · have hspare : l.Spares s :=
        ⟨fun c h => hmove ⟨c, h⟩, by rintro rfl; exact absurd hl (by simp [Label.sparesWorkers])⟩
      exact Or.inr (Or.inl ⟨s, v, pc, step_worker_stays hs he hspare, hpc⟩)
  · exact Or.inr (Or.inr (ha.snoc hwin))

theorem accounted_step {tr : List (World σ η × Label σ η)} {l : Label σ η} (hS : Sane cfg w)
    (hj : Judges lib settings w l) (hl : l.sparesWorkers = true) (hs : step cfg w l = some w')
    (hA : ∀ i, Gradable cfg lib w i → Accounted cfg tr w i) {i : ItemId}
    (hG' : Gradable cfg lib w' i) : Accounted cfg (tr ++ [(w, l)]) w' i := by
  by_cases hst : w.statusOf i = some .succeeded
  · have hG : Gradable cfg lib w i := by
      refine ⟨hst, fun row task hrow htask => ?_⟩
      obtain ⟨row', hrow', hch⟩ := step_item hs hrow
      exact hG'.configured row' task hrow' (hch.keeps.2.1 ▸ htask)
    exact accounted_of_kept hS hj hl hs hG hG'.succeeded (hA i hG)
  · -- The item has just been won: the winner stands in front of its spend check.
    obtain ⟨s, c, v, res, rfl, he, hrun⟩ := wins_iff.mp (wins_of_succeeded hs hG'.succeeded hst)
    exact Or.inr (Or.inl ⟨s, v, .abortCheck res, (step_of_hit hs he hrun).2.2, rfl⟩)

/-- A refused transaction does not take an item away from its graders. -/
theorem accounted_of_refused {σ η : Type} [DecidableEq σ] {w : World σ η}
    {tr : List (World σ η × Label σ η)} {s : σ} {c : Choice} {e : Exec}
    {x : String} (he : w.workers s = some e) (hr : refusal w.store e.rid e.phase = some x)
    (hstored : StoresGradingErrors w (.exec s c)) {i : ItemId} (hG : Gradable cfg lib w i)
    (hA : Accounted cfg tr w i) :
    Accounted cfg (tr ++ [(w, .exec s c)]) (w.setWorker s none) i := by
  rcases hA with hg | ⟨s', v, pc, he', hpc⟩ | ha
  · exact Or.inl hg
  · refine Or.inr (Or.inl ⟨s', v, pc, ?_, hpc⟩)
    have hne : s' ≠ s := by
      rintro rfl
      obtain rfl := Option.some.inj (he.symm.trans he')
      -- of the four transactions that can be refused only one stands behind the finalising one
      cases pc with
      | markGradingFailed e =>
        simp [refusal, storableText_gradingError, hstored i v e he'] at hr
      | finalise | markNonRetryable | markDeadLettered =>
        exact absurd hpc (by simp [Pc.willGrade])
      | _ => cases hr
    simpa [World.setWorker, hne] using he'
  · exact Or.inr (Or.inr (ha.snoc (not_wins_of_succeeded hG.succeeded)))

theorem accounted_stepChecked {tr : List (World σ η × Label σ η)} {l : Label σ η} (hS : Sane cfg w)
    (hj : Judges lib settings w l) (hl : l.sparesWorkers = true) (hstored : StoresGradingErrors w l)
    (hs : stepChecked cfg w l = some w') (hA : ∀ i, Gradable cfg lib w i → Accounted cfg tr w i)
    {i : ItemId} (hG' : Gradable cfg lib w' i) : Accounted cfg (tr ++ [(w, l)]) w' i := by
  by_cases hacc : Accepted w l
  · rw [stepChecked_of_accepted hacc] at hs
    exact accounted_step hS hj hl hs hA hG'
  · obtain ⟨s, c, e, x, rfl, he, hr⟩ := exists_refusal hacc
    obtain rfl := refused_step he hr hs
    have hG : Gradable cfg lib w i := ⟨hG'.succeeded, hG'.configured⟩
    exact accounted_of_refused he hr hstored hG (hA i hG)

/-! ## 4. Every run -/

/-- **Succeeded items are graded, or left by an abort.**  In every run without a worker's death in
which the errors of grading can be stored: a succeeded item whose task has a grader, and of which no
execution is active, has a grade, unless an execution of it has aborted its run at the spend check
since the item was last won. -/
theorem succeeded_graded {tr : List (World σ η × Label σ η)}
    (hrun : Run (stepChecked cfg) World.init tr w) (hj : Along (Judges lib settings) tr)
    (hl : Along (fun _ l => l.sparesWorkers = true) tr) (hstored : Along StoresGradingErrors tr) :
    ∀ i row task, w.store.db.items.get i = some row → row.status = .succeeded →
      cfg.catalog.tasks.get row.taskId = some task → Configured lib task →
      (∀ s e, w.workers s = some e → e.rid ≠ i) →
      w.IsGraded i ∨ LeftAborted cfg i tr := by
  have hinv : Sane cfg w ∧ ∀ i, Gradable cfg lib w i → Accounted cfg tr w i :=
    hrun.induct (J := fun tr w => Sane cfg w ∧ ∀ i, Gradable cfg lib w i → Accounted cfg tr w i)
      ⟨sane_init, fun _ hG => absurd hG.succeeded (by simp [World.statusOf, World.init, Db.empty])⟩
      (fun _ _ _ _ hI hok hs =>
        ⟨sane_step hI.1 ((stepChecked_eq ..).symm.trans hs),
          fun _ hG' => accounted_stepChecked hI.1 hok.1.1 hok.1.2 hok.2 hs hI.2 hG'⟩)
      ((hj.and hl).and hstored).follows
  intro i row task hrow hst htask hc hidle
  have hG : Gradable cfg lib w i := by
    refine ⟨by simp [World.statusOf, hrow, hst], fun row' task' hrow' htask' => ?_⟩
    obtain rfl := Option.some.inj (hrow.symm.trans hrow')
    exact Option.some.inj (htask.symm.trans htask') ▸ hc
  rcases hinv.2 i hG with hg | ⟨s, v, pc, he, -⟩ | ha
  · exact Or.inl hg
  · exact absurd rfl (hidle s _ he)
  · exact Or.inr ha

/-- The small installation's task has a grader. -/
theorem configured_small {task : Task} (ht : task.graderType = .exactMatch)
    (he : task.expectedOutput ≠ none) : Configured lib task := by
  obtain ⟨expected, he⟩ := Option.ne_none_iff_exists'.mp he
  exact Or.inl ⟨"", _, by simp [runDeterministic, ht, he]; rfl⟩

/-- An item runs to its end undisturbed and is graded. -/
theorem succeeded_graded_small : ∃ (tr : List (World (Fin 2) (Fin 1) × Label (Fin 2) (Fin 1)))
    (w : World (Fin 2) (Fin 1)), Run (stepChecked (smallConfig 1 1 5000000)) World.init tr w ∧
      w.statusOf 0 = some .succeeded ∧
      (w.IsGraded 0 ∨ LeftAborted (smallConfig 1 1 5000000) 0 tr) := by
  obtain ⟨tr, w, hrun, hall, htest⟩ := exists_run_of_play
    (stepChecked (smallConfig 1 1 5000000)) (World.init : World (Fin 2) (Fin 1))
    (fun w l => (judgesMatched w l && l.sparesWorkers) && decide (Accepted w l))
    (launch 0 1 ++ [.deliver 0 0] ++ execs 0 answersMatched 11)
    (fun _ w => (w.store.db.items.get 0).any (fun row => row.status == .succeeded &&
        ((smallConfig 1 1 5000000).catalog.tasks.get row.taskId).any fun task =>
          task.graderType == .exactMatch && task.expectedOutput != none) &&
      decide (∀ s, w.workers s = none))
    (by decide)
  simp only [Bool.and_eq_true, Option.any_eq_true, beq_iff_eq, bne_iff_ne, decide_eq_true_eq] at htest
  obtain ⟨⟨row, hrow, hst, task, htask, ht, he⟩, hidle⟩ := htest
  have hj : Along (Judges plainLibraries {}) tr :=
    hall.mono fun _ _ h =>
      judges_of_matched (Bool.and_eq_true_iff.mp (Bool.and_eq_true_iff.mp h).1).1
  have hl : Along (fun _ l => l.sparesWorkers = true) tr :=
    hall.mono fun _ _ h => (Bool.and_eq_true_iff.mp (Bool.and_eq_true_iff.mp h).1).2
  have hstored : Along StoresGradingErrors tr := hall.mono fun _ _ h =>
    storesGradingErrors_of_accepted (of_decide_eq_true (Bool.and_eq_true_iff.mp h).2)
  exact ⟨tr, w, hrun, by simp [World.statusOf, hrow, hst],
    succeeded_graded hrun hj hl hstored 0 row task hrow hst htask (configured_small ht he)
      fun s e h => absurd h (by simp [hidle s])⟩

/-- One item costs more than the limit: its own spend check aborts the run and nobody grades it. -/
theorem aborted_ungraded : ¬ ∀ (lib : Libraries) (settings : Settings)
    (tr : List (World (Fin 2) (Fin 1) × Label (Fin 2) (Fin 1))) (w : World (Fin 2) (Fin 1)),
      Run (stepChecked (smallConfig 1 1 1000000)) World.init tr w → Along Calm tr →
        Along Accepted tr → Along (Judges lib settings) tr →
        ∀ i row task, w.store.db.items.get i = some row → row.status = .succeeded →
          (smallConfig 1 1 1000000).catalog.tasks.get row.taskId = some task →
          Configured lib task → (∀ s e, w.workers s = some e → e.rid ≠ i) → w.IsGraded i := by
  intro hall
  obtain ⟨tr, w, hrun, hok, htest⟩ := exists_run_of_play
    (stepChecked (smallConfig 1 1 1000000)) (World.init : World (Fin 2) (Fin 1))
    (fun w l => (decide (Calm w l) && judgesMatched w l) && decide (Accepted w l))
    (launch 0 1 ++ [.deliver 0 0] ++ execs 0 answersMatched 7)
    (fun _ w => (w.store.db.items.get 0).any (fun row => row.status == .succeeded &&
        ((smallConfig 1 1 1000000).catalog.tasks.get row.taskId).any fun task =>
          task.graderType == .exactMatch && task.expectedOutput != none) &&
      decide (∀ s, w.workers s = none) && w.store.db.grades.isEmpty)
    (by decide)
  simp only [Bool.and_eq_true, Option.any_eq_true, beq_iff_eq, bne_iff_ne, decide_eq_true_eq,
    List.isEmpty_iff] at htest
  obtain ⟨⟨⟨row, hrow, hst, task, htask, ht, he⟩, hidle⟩, hnone⟩ := htest
  have hcalm : Along Calm tr :=
    hok.mono fun _ _ h => of_decide_eq_true (Bool.and_eq_true_iff.mp (Bool.and_eq_true_iff.mp h).1).1
  have hacc : Along Accepted tr :=
    hok.mono fun _ _ h => of_decide_eq_true (Bool.and_eq_true_iff.mp h).2
  have hj : Along (Judges plainLibraries {}) tr :=
    hok.mono fun _ _ h => judges_of_matched (Bool.and_eq_true_iff.mp (Bool.and_eq_true_iff.mp h).1).2
  obtain ⟨g, hg, -⟩ := hall plainLibraries {} tr w hrun hcalm hacc hj 0 row task hrow hst htask
    (configured_small ht he) fun s e h => absurd h (by simp [hidle s])
  exact absurd hg (by simp [hnone])

end EvalHarness
