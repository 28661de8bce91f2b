/-
# After a worker dies

A message is acknowledged late and rejected when its worker is lost, so the broker hands it out
again.  What the second execution can do depends on what the first one had committed:
`_mark_running` leaves the item in a status the initial read turns away, and behind the item's
last update nobody is left to check the run.

Nobody else acts on the item while the second execution is under way, but other items, their runs and
their workers go on as they like.  So what decides is not the state at the death of the worker: it is
what the second execution finds at its own steps.  `Phase.Recovers` says of each step what it has to
find, `crash_recovery` that it brings the item and its run to rest exactly if it finds that at all of
them.  The proof is about the last step, since every step behind which the execution goes on has
found it.
-/
import EvalHarness.Progress
import EvalHarness.Refusals

namespace EvalHarness

open Lts

variable {σ η : Type} [DecidableEq σ] [DecidableEq η] {cfg : Config} {w w' : World σ η}

/-! ## 1. Executions end -/

/-- A bound on the steps an execution has left. -/
def Pc.fuel (retry : RetryConfig) : Pc → Nat
  | .markRunning a => 2 * (retry.maxAttempts - a) + 15
  | .complete a => 2 * (retry.maxAttempts - a) + 14
  | .checkCancelled _ => 11
  | .writeArtifact _ => 10
  | .finalise _ => 9
  | .abortCheck _ => 8
  | .gradeRead _ => 7
  | .judge _ => 6
  | .reviewCheck _ _ => 5
  | .gradeCommit _ _ => 4
  | .markDeadLettered _ => 3
  | .publishDeadLetter | .markNonRetryable _ | .markGradingFailed _ => 2
  | .skipCancelled | .skipAborted | .dropCancelled | .maybeComplete _ => 1

def Phase.fuel (retry : RetryConfig) : Phase → Nat
  | .start => 2 * retry.maxAttempts + 16
  | .at _ pc => pc.fuel retry

theorem Phase.fuel_pos {retry : RetryConfig} (p : Phase) : 0 < p.fuel retry := by
  cases p with
  | start => simp [Phase.fuel]
  | «at» v pc => cases pc <;> simp [Phase.fuel, Pc.fuel]

theorem PcStep.fuel_lt {c : Choice} {rid : ItemId} {v : Loaded} {m : Backend} {pc pc' : Pc}
    (h : PcStep cfg c rid v m pc pc') : pc'.fuel cfg.retry < pc.fuel cfg.retry := by
  cases h <;> simp only [Pc.fuel] <;> omega

/-- Every step of an execution leaves it with less. -/
theorem executeRunItem_fuel {c : Choice} {rid : ItemId} {m : Backend} {p p' : Phase}
    (h : (executeRunItem cfg c rid m p).2 = .goto p') : p'.fuel cfg.retry < p.fuel cfg.retry := by
  cases p with
  | start =>
    obtain ⟨_, _, _, _, pc, -, -, -, -, rfl, hcase⟩ := startRunItem_goto h
    rcases hcase with ⟨rfl, -⟩ | ⟨rfl, -⟩ | ⟨rfl, -⟩
    · simp [Phase.fuel, Pc.fuel]
    · simp [Phase.fuel, Pc.fuel]
    · simp only [nextAttempt]
      split <;> simp only [Phase.fuel, Pc.fuel] <;> omega
  | «at» v pc =>
    obtain ⟨pc', rfl, hstep⟩ := stepRunItem_next h
    exact hstep.fuel_lt

/-- The slot whose execution takes a step. -/
def Label.execBy : Label σ η → Option σ
  | .exec s _ => some s
  | _ => none

/-- Only the execution in slot `s` moves. -/
def Solo (s : σ) (_ : World σ η) (l : Label σ η) : Prop := l.execBy = some s

theorem Solo.exec {σ η : Type} {w : World σ η}
    {s : σ} {l : Label σ η} (h : Solo s w l) : ∃ c, l = .exec s c := by
  cases l with
  | exec s' c =>
    obtain rfl := Option.some.inj h
    exact ⟨c, rfl⟩
  | _ => exact absurd h (by simp [Solo, Label.execBy])

/-- A slot that works alone is done after a bounded number of steps. -/
theorem solo_length_le {s : σ} {i : ItemId} {p : Phase} {tr : List (World σ η × Label σ η)}
    (hw : w.workers s = some ⟨i, p⟩) (h : Run (step cfg) w tr w') (hok : Along (Solo s) tr) :
    tr.length ≤ p.fuel cfg.retry := by
  have hle := h.length_le
    (fun u => (u.workers s).elim 0 fun e => e.phase.fuel cfg.retry) ?_ hok
  · simp only [hw, Option.elim_some] at hle
    omega
  · rintro u l u' hsolo hs
    obtain ⟨c, rfl⟩ := hsolo.exec
    obtain ⟨e, he, rfl⟩ := step_exec hs
    simp only [World.afterExec_workers, Function.update_self, he, Option.elim_some]
    cases hn : (executeRunItem cfg c e.rid u.store e.phase).2 with
    | goto p' => exact executeRunItem_fuel hn
    | _ => simpa [Next.phase?] using e.phase.fuel_pos

/-! ## 2. What is promised, and when -/

/-- All other items of the run are terminal. -/
def OthersTerminal (db : Db) (i : ItemId) (r : RunId) : Prop :=
  ∀ j row, db.items.get j = some row → j ≠ i → row.evalRunId = r → row.status.isTerminal = true

/-- The item is at rest, and its run is unless another item keeps it going. -/
def Recovered (db : Db) (i : ItemId) : Prop :=
  ∃ row run, db.items.get i = some row ∧ db.runs.get row.evalRunId = some run ∧
    row.status.isTerminal = true ∧
    (OthersTerminal db i row.evalRunId → run.status ≠ .running)

/-- The run does not wait for the item: it is over, or waits for another one. -/
def NotAwaited (db : Db) (i : ItemId) : Prop :=
  ∃ row run, db.items.get i = some row ∧ db.runs.get row.evalRunId = some run ∧
    (run.status ≠ .running ∨ ¬ OthersTerminal db i row.evalRunId)

/-- The states an initial read has to find: the run is over, or the item still has its execution
before it, or the item is at rest and the run is not waiting for it. -/
def Recoverable (db : Db) (i : ItemId) : Prop :=
  ∃ row run, db.items.get i = some row ∧ db.runs.get row.evalRunId = some run ∧
    (run.status = .cancelled ∨ run.status = .failed ∨
      row.status = .queued ∨ row.status = .deadLettered ∨
      (row.status = .succeeded ∨ row.status = .failed) ∧
        (run.status ≠ .running ∨ ¬ OthersTerminal db i row.evalRunId))

/-- What a step of the second execution has to find: its initial read a recoverable state, a
transaction that can be refused that it is not, and `_mark_failed`, which does not check the run, a
run that does not wait for the item. -/
def Phase.Recovers (m : Backend) (i : ItemId) : Phase → Prop
  | .start => Recoverable m.db i
  | .at _ .skipAborted => NotAwaited m.db i
  | .at v (.markGradingFailed e) =>
    refusal m i (.at v (.markGradingFailed e)) = none ∨ NotAwaited m.db i
  | p => refusal m i p = none

/-- The step, if it is one of the execution in slot `s`, finds what it has to. -/
def Recovers (s : σ) (i : ItemId) (u : World σ η) (l : Label σ η) : Prop :=
  ∀ c p, l = .exec s c → u.workers s = some ⟨i, p⟩ → p.Recovers u.store i

/-- The execution in slot `s` is under way, its worker lives, and nobody else acts on item `i`: no
other execution of it takes a step, and no replay of it commits. -/
structure SoleActor (s : σ) (i : ItemId) (u : World σ η) (l : Label σ η) : Prop where
  busy : u.workers s ≠ none
  alive : l ≠ .crash s
  exec : ∀ s' c p, l = .exec s' c → s' ≠ s → u.workers s' ≠ some ⟨i, p⟩
  replay : ∀ h now r, l = .handler h now → u.handlers h ≠ some (.replayCommit i r)

/-! ## 3. The second execution -/

/-- The statuses of the item the second execution can meet at a step. -/
def Pc.meets : Pc → RunItemStatus → Bool
  | .complete _, s | .markNonRetryable _, s | .checkCancelled _, s | .writeArtifact _, s
  | .finalise _, s => s == .running
  | .abortCheck _, s | .gradeRead _, s | .judge _, s | .reviewCheck _ _, s | .gradeCommit _ _, s
  | .markGradingFailed _, s => s == .succeeded
  | .publishDeadLetter, s | .maybeComplete _, s => s.isTerminal
  -- a text that is refused is that of a call, behind `_mark_running`
  | .markDeadLettered e, s => storableText e || s == .running
  | .skipCancelled, _ | .skipAborted, _ | .dropCancelled, _ | .markRunning _, _ => true

def Phase.meets : Phase → RunItemStatus → Bool
  | .start, _ => true
  | .at _ pc, s => pc.meets s

theorem PcStep.meets {c : Choice} {rid : ItemId} {v : Loaded} {m : Backend} {pc pc' : Pc}
    {row : RunItem} (h : PcStep cfg c rid v m pc pc') (hm : pc.meets row.status = true) :
    pc'.meets (pc.rowAfter rid v row).status = true := by
  cases h with
  | won =>
    simp only [Pc.meets, beq_iff_eq] at hm
    simp [Pc.rowAfter, hm, finalisedRow, Pc.meets]
  | noticed => exact hm
  | exhausted =>
    simp only [Pc.meets, beq_iff_eq] at hm
    simp [Pc.rowAfter, hm, Pc.meets]
  | regraded | committed =>
    simp only [Pc.meets, beq_iff_eq] at hm
    simp [Pc.rowAfter, hm, Pc.meets, RunItemStatus.isTerminal]
  | answered | rejected | passed | written | within | ungraded | raised | agreed | disagreed
    | reviewed | unreviewed | unstored => exact hm
  | _ => rfl

/-- A place that meets a queued item meets it when an abort or a cancel has failed it as well. -/
theorem Phase.meets_failed {p : Phase} (h : p.meets .queued = true) : p.meets .failed = true := by
  cases p with
  | start => rfl
  | «at» v pc => cases pc <;> simp_all [Phase.meets, Pc.meets, RunItemStatus.isTerminal]

theorem meets_nextAttempt (retry : RetryConfig) (s : RunItemStatus) :
    (nextAttempt retry 1 "None").meets s = true := by
  unfold nextAttempt
  dsimp only
  split
  · rfl
  · have hnone : storableText "None" = true := by decide
    exact Bool.or_eq_true_iff.mpr (.inl ((storableText_exhausted _ _).trans hnone))

/-- Where the second execution stands, and what it meets there. -/
def Placed (s : σ) (i : ItemId) (u : World σ η) : Prop :=
  ∃ p row, u.workers s = some ⟨i, p⟩ ∧ u.store.db.items.get i = some row ∧
    p.meets row.status = true

/-- What somebody else does. -/
theorem Placed.other {s : σ} {i : ItemId} {l : Label σ η} (hP : Placed s i w)
    (hok : SoleActor s i w l) (hl : l.Spares s) (hs : step cfg w l = some w') : Placed s i w' := by
  obtain ⟨p, row, he, hrow, hm⟩ := hP
  obtain ⟨row', hrow', hch⟩ := step_item hs hrow
  refine ⟨p, row', step_worker_stays hs he hl, hrow', ?_⟩
  have foreign : ∀ {s' c q}, l = .exec s' c → w.workers s' ≠ some ⟨i, q⟩ := by
    rintro s' c q rfl
    exact hok.exec s' c q rfl fun h => hl.1 c (h ▸ rfl)
  cases hch with
  | keep => exact hm
  | markRunning hw | markFailed hw | markDeadLettered hw | markCancelled hw | finalise hw =>
    exact absurd hw (foreign rfl)
  | abort _ _ _ hq | cancel _ hq => exact p.meets_failed (hq ▸ hm)
  | requeue hh => exact absurd hh (hok.replay _ _ _ rfl)

/-- The step behind which the second execution goes on. -/
theorem Placed.next {s : σ} {i : ItemId} {c : Choice} (hP : Placed s i w)
    (hs : step cfg w (.exec s c) = some w') (hbusy : w'.workers s ≠ none) : Placed s i w' := by
  obtain ⟨p, row, he, hrow, hm⟩ := hP
  obtain ⟨e, he', rfl⟩ := step_exec hs
  obtain rfl := Option.some.inj (he.symm.trans he')
  obtain ⟨p', hn⟩ : ∃ p', (executeRunItem cfg c i w.store p).2 = .goto p' := by
    cases hn : (executeRunItem cfg c i w.store p).2 with
    | goto p' => exact ⟨p', rfl⟩
    | _ => exact absurd (by simp [hn, Next.phase?]) hbusy
  refine ⟨p', ?_⟩
  cases p with
  | start =>
    obtain ⟨_, _, _, _, pc, -, -, -, -, rfl, hcase⟩ := startRunItem_goto hn
    refine ⟨row, by simp [hn, Next.phase?], by simpa [executeRunItem] using hrow, ?_⟩
    rcases hcase with ⟨rfl, -⟩ | ⟨rfl, -⟩ | ⟨rfl, -⟩
    · rfl
    · rfl
    · exact meets_nextAttempt _ _
  | «at» v pc =>
    have hq : ∀ r, pc = .abortCheck r → row.status ≠ .queued := by
      rintro r rfl hq
      simp [Phase.meets, Pc.meets, hq] at hm
    obtain ⟨pc', rfl, hstep⟩ := stepRunItem_next hn
    refine ⟨pc.rowAfter i v row, by simp [hn, Next.phase?], ?_, hstep.meets hm⟩
    rw [World.afterExec_store]
    exact stepRunItem_row hrow hq

/-- A transaction behind which the second execution goes on was not refused, and its initial read has
found a recoverable state. -/
theorem recovers_of_goto {c : Choice} {m : Backend} {i : ItemId} {p p' : Phase}
    (hr : refusal m i p = none) (hn : (executeRunItem cfg c i m p).2 = .goto p') :
    p.Recovers m i := by
  cases p with
  | start =>
    obtain ⟨row, _, _, run, _, hrow, -, -, hrun, -, hcase⟩ := startRunItem_goto hn
    refine ⟨row, run, hrow, hrun, ?_⟩
    rcases hcase with ⟨-, h⟩ | ⟨-, h⟩ | ⟨-, -, -, h | h⟩ <;> simp [h]
  | «at» v pc =>
    cases pc with
    | skipAborted => cases hn
    | markGradingFailed e => exact .inl hr
    | _ => exact hr

/-! ## 4. Its last step -/

/-- Where the initial read is the last step, the item is at rest if it was. -/
theorem recovered_start_iff {db : Db} {i : ItemId} {row : RunItem} {run : EvalRun}
    (hS : ∃ task, cfg.catalog.tasks.get row.taskId = some task)
    (hE : ∃ e, cfg.catalog.endpoints.get row.modelEndpointId = some e)
    (hrow : db.items.get i = some row) (hrun : db.runs.get row.evalRunId = some run)
    (hends : ∀ p, startRunItem cfg i db ≠ .goto p) : Recovered db i ↔ Recoverable db i := by
  obtain ⟨hc, hf, hst⟩ := startRunItem_ends hends hrow ⟨hS, hE⟩ hrun
  constructor
  · rintro ⟨row', run', hrow', hrun', hterm, hothers⟩
    obtain rfl := Option.some.inj (hrow.symm.trans hrow')
    refine ⟨row, run', hrow, hrun', .inr (.inr (.inr (.inr ⟨?_, ?_⟩)))⟩
    · cases hrs : row.status <;> simp_all [RunItemStatus.isTerminal]
    · by_cases ho : OthersTerminal db i row.evalRunId
      · exact .inl (hothers ho)
      · exact .inr ho
  · rintro ⟨row', run', hrow', hrun', hrec⟩
    obtain rfl := Option.some.inj (hrow.symm.trans hrow')
    obtain rfl := Option.some.inj (hrun.symm.trans hrun')
    have hrest : (row.status = .succeeded ∨ row.status = .failed) ∧
        (run.status ≠ .running ∨ ¬ OthersTerminal db i row.evalRunId) := by
      rcases hrec with h | h | h | h | h
      · exact absurd h hc
      · exact absurd h hf
      · simp [h] at hst
      · simp [h] at hst
      · exact h
    refine ⟨row, run, hrow, hrun, ?_, fun ho => hrest.2.resolve_right (not_not.mpr ho)⟩
    rcases hrest.1 with h | h <;> simp [h, RunItemStatus.isTerminal]

/-- With the item at rest, all that is left to ask is whether its run waits for it. -/
theorem recovered_iff_notAwaited {db : Db} {i : ItemId} {row : RunItem}
    (hrow : db.items.get i = some row) (ht : row.status.isTerminal = true) :
    Recovered db i ↔ NotAwaited db i := by
  constructor
  · rintro ⟨row', run, hrow', hrun, -, hothers⟩
    refine ⟨row', run, hrow', hrun, ?_⟩
    by_cases ho : OthersTerminal db i row'.evalRunId
    · exact .inl (hothers ho)
    · exact .inr ho
  · rintro ⟨row', run, hrow', hrun, hor⟩
    obtain rfl := Option.some.inj (hrow.symm.trans hrow')
    exact ⟨row, run, hrow, hrun, ht, fun ho => hor.resolve_right (not_not.mpr ho)⟩

/-- Who waits for an item does not depend on its own status. -/
theorem notAwaited_updateItem {db : Db} {i : ItemId} {f : RunItem → RunItem}
    (hf : ∀ row, (f row).evalRunId = row.evalRunId) :
    NotAwaited (db.updateItem i (fun _ => true) f) i ↔ NotAwaited db i := by
  have hothers : ∀ r, OthersTerminal (db.updateItem i (fun _ => true) f) i r ↔
      OthersTerminal db i r := by
    intro r
    refine forall_congr' fun j => forall_congr' fun row => ?_
    by_cases hj : j = i
    · simp [hj]
    · simp [hj]
  cases hrow : db.items.get i with
  | none => simp [NotAwaited, hrow]
  | some row => simp [NotAwaited, hrow, hothers, hf]

/-- A refused transaction is the last step. -/
theorem recovered_refused_iff {m : Backend} {i : ItemId} {p : Phase} {row : RunItem} {x : String}
    (hrow : m.db.items.get i = some row) (hm : p.meets row.status = true)
    (hr : refusal m i p = some x) : Recovered m.db i ↔ p.Recovers m i := by
  have hrunning : row.status = .running → ¬ Recovered m.db i := by
    rintro hst ⟨row', _, hrow', -, hterm, -⟩
    obtain rfl := Option.some.inj (hrow.symm.trans hrow')
    simp [hst, RunItemStatus.isTerminal] at hterm
  cases p with
  | start => cases hr
  | «at» v pc =>
    cases pc with
    | finalise r | markNonRetryable e =>
      simp only [Phase.meets, Pc.meets, beq_iff_eq] at hm
      exact iff_of_false (hrunning hm) (by simp [Phase.Recovers, hr])
    | markDeadLettered e =>
      have hbad : storableText e = false := by
        refine Bool.eq_false_iff.mpr fun hgood => ?_
        simp [refusal, hgood] at hr
      simp only [Phase.meets, Pc.meets, hbad, Bool.false_or, beq_iff_eq] at hm
      exact iff_of_false (hrunning hm) (by simp [Phase.Recovers, hr])
    | markGradingFailed e =>
      simp only [Phase.meets, Pc.meets, beq_iff_eq] at hm
      rw [recovered_iff_notAwaited hrow (by simp [hm, RunItemStatus.isTerminal]), Phase.Recovers, hr]
      simp
    | _ => cases hr

/-- An execution that ends by itself has recovered its item, unless it has found the run failed. -/
theorem recovered_of_ends {s : σ} {c : Choice} (hS : Sane cfg w)
    (hs : step cfg w (.exec s c) = some w') {i : ItemId} {v : Loaded} {pc : Pc} {row : RunItem}
    {run : EvalRun} (he : w.workers s = some ⟨i, .at v pc⟩)
    (hrow : w.store.db.items.get i = some row)
    (hrow' : w'.store.db.items.get i = some (pc.rowAfter i v row))
    (hrun : w.store.db.runs.get v.evalRunId = some run) (hm : pc.meets row.status = true)
    (hskip : pc ≠ .skipAborted) (hends : PcEnds cfg c i v w.store pc) :
    Recovered w'.store.db i := by
  obtain ⟨row₀, hrow₀, hv, -⟩ := hS.loaded s i v pc he
  obtain rfl := Option.some.inj (hrow.symm.trans hrow₀)
  obtain ⟨run', hrun', hch⟩ := step_run hs hrun
  have hr' : (pc.rowAfter i v row).evalRunId = v.evalRunId := by
    have hch := itemChange hs hrow hrow'
    rw [hch.keeps.1, hv]
  refine ⟨_, run', hrow', by rw [hr']; exact hrun', ?_⟩
  have dropped : pc.skips = true → run'.status ≠ .running := by
    intro hpc
    have := step_cancelled hs (hS.skipping s i v pc he hpc)
    simp only [World.runStatusOf, hrun', Option.map_some, Option.some.injEq] at this
    simp [this]
  cases hends with
  | skipCancelled | dropCancelled =>
    refine ⟨?_, fun _ => dropped rfl⟩
    simp only [Pc.rowAfter]
    split
    · rename_i hsucc
      simp [hsucc, RunItemStatus.isTerminal]
    · rfl
  | skipAborted => exact absurd rfl hskip
  | lost hmiss =>
    simp only [Pc.meets, beq_iff_eq] at hm
    exact absurd (hmiss.symm.trans (finaliseRunItem_iff.mpr ⟨row, hrow, hm⟩)) (by simp)
  | aborted ha =>
    simp only [Pc.meets, beq_iff_eq] at hm
    refine ⟨by simp [Pc.rowAfter, hm, RunItemStatus.isTerminal], fun _ => ?_⟩
    obtain ⟨run₁, hrun₁, hover⟩ := abortOverBudget_iff.mp ha
    obtain rfl := Option.some.inj (hrun.symm.trans hrun₁)
    have hget := (step_of_abort hs he hrun hover).2.1 v.evalRunId
    rw [hrun, hrun'] at hget
    simp only [hover, and_self, if_true, Option.map_some, Option.some.injEq] at hget
    simp [hget]
  | checked =>
    refine ⟨hm, fun hothers => ?_⟩
    obtain ⟨hitems, hruns, -⟩ := step_of_check hs he
    have hrem : remaining w.store.db v.evalRunId = 0 := by
      refine remaining_eq_zero.mpr fun j rowj hj hrj => ?_
      by_cases hji : j = i
      · subst hji
        obtain rfl := Option.some.inj (hrow.symm.trans hj)
        simp [RunItemStatus.isActive, show row.status.isTerminal = true from hm]
      · have := hothers j rowj (by rw [hitems]; exact hj) hji (by rw [hr']; exact hrj)
        simp [RunItemStatus.isActive, this]
    have hget := hruns v.evalRunId
    rw [hrun, hrun'] at hget
    simp only [hrem, true_and, and_true, Option.map_some, Option.some.injEq] at hget
    rw [hget]
    split
    · cases hasDeadLetter w.store.db v.evalRunId <;> simp
    · assumption

/-- **The last step.**  It leaves the item recovered exactly if it finds what it has to. -/
theorem recovered_last_iff {s : σ} {c : Choice} (hS : Sane cfg w)
    (hs : stepChecked cfg w (.exec s c) = some w') {i : ItemId} {p : Phase} {row : RunItem}
    (he : w.workers s = some ⟨i, p⟩) (hrow : w.store.db.items.get i = some row)
    (hm : p.meets row.status = true) (hidle : w'.workers s = none) :
    Recovered w'.store.db i ↔ p.Recovers w.store i := by
  cases hr : refusal w.store i p with
  | some x =>
    obtain rfl := refused_step he hr hs
    exact recovered_refused_iff hrow hm hr
  | none =>
    rw [stepChecked_of_accepted fun e h => by
      obtain rfl := Option.some.inj (he.symm.trans h)
      exact hr] at hs
    obtain ⟨e, he', hw'⟩ := step_exec hs
    obtain rfl := Option.some.inj (he.symm.trans he')
    have hends : ∀ p', (executeRunItem cfg c i w.store p).2 ≠ .goto p' := by
      intro p' hn
      simp [hw', hn, Next.phase?] at hidle
    obtain ⟨run, hrun⟩ := hS.run_of_item i row hrow
    cases p with
    | start =>
      have hdb : w'.store.db = w.store.db := by rw [hw', World.afterExec_store]; rfl
      obtain ⟨htask, hend⟩ := hS.catalog_of_item i row hrow
      rw [hdb]
      exact recovered_start_iff htask hend hrow hrun hends
    | «at» v pc =>
      have hq : ∀ r, pc = .abortCheck r → row.status ≠ .queued := by
        rintro r rfl hq
        simp [Phase.meets, Pc.meets, hq] at hm
      have hrow' : w'.store.db.items.get i = some (pc.rowAfter i v row) := by
        rw [hw', World.afterExec_store]
        exact stepRunItem_row hrow hq
      have hlast := stepRunItem_ends hends
      by_cases hskip : pc = .skipAborted
      · subst hskip
        have hdb : w'.store.db = markFailed w.store.db i "eval run aborted" := by
          rw [hw', World.afterExec_store]
          rfl
        rw [recovered_iff_notAwaited hrow' rfl, hdb]
        exact notAwaited_updateItem fun _ => rfl
      · obtain ⟨row₁, hrow₁, hv, -⟩ := hS.loaded s i v pc he
        obtain rfl := Option.some.inj (hrow.symm.trans hrow₁)
        rw [← hv] at hrun
        refine iff_of_true (recovered_of_ends hS hs he hrow hrow' hrun hm hskip hlast) ?_
        cases pc with
        | skipAborted => exact absurd rfl hskip
        | markGradingFailed e => exact .inl hr
        | _ => exact hr

/-! ## 5. The broker delivers again -/

/-- Where the second execution is, and what its steps have found. -/
def Recovering (s : σ) (i : ItemId) (tr : List (World σ η × Label σ η)) (u : World σ η) : Prop :=
  (Placed s i u ∧ Along (Recovers s i) tr) ∨
    (u.workers s = none ∧ (Recovered u.store.db i ↔ Along (Recovers s i) tr))

/-- **The step lemma.** -/
theorem recovering_step {s : σ} {i : ItemId} {tr : List (World σ η × Label σ η)} {l : Label σ η}
    (hS : Sane cfg w) (hR : Recovering s i tr w) (hok : SoleActor s i w l)
    (hs : stepChecked cfg w l = some w') : Recovering s i (tr ++ [(w, l)]) w' := by
  obtain ⟨hP, htr⟩ | ⟨hidle, -⟩ := hR
  · by_cases hmove : ∃ c, l = .exec s c
    · obtain ⟨c, rfl⟩ := hmove
      obtain ⟨p, row, he, hrow, hm⟩ := hP
      have hthis : Recovers s i w (.exec s c) ↔ p.Recovers w.store i := by
        constructor
        · exact fun h => h c p rfl he
        · rintro h c' p' - he'
          obtain ⟨-, rfl⟩ := Exec.mk.inj (Option.some.inj (he.symm.trans he'))
          exact h
      by_cases hidle : w'.workers s = none
      · refine .inr ⟨hidle, ?_⟩
        rw [recovered_last_iff hS hs he hrow hm hidle, Along.snoc, hthis]
        exact ⟨fun h => ⟨htr, h⟩, fun h => h.2⟩
      · -- the execution goes on, so nothing was refused
        have hr : refusal w.store i p = none := by
          refine Option.eq_none_iff_forall_ne_some.mpr fun x hr => hidle ?_
          rw [refused_step he hr hs]
          simp [World.setWorker]
        rw [stepChecked_of_accepted fun e h => by
          obtain rfl := Option.some.inj (he.symm.trans h)
          exact hr] at hs
        refine .inl ⟨Placed.next ⟨p, row, he, hrow, hm⟩ hs hidle, Along.snoc.mpr ⟨htr, hthis.mpr ?_⟩⟩
        obtain ⟨e, he', rfl⟩ := step_exec hs
        obtain rfl := Option.some.inj (he.symm.trans he')
        cases hn : (executeRunItem cfg c i w.store p).2 with
        | goto p' => exact recovers_of_goto hr hn
        | _ => exact absurd (by simp [hn, Next.phase?]) hidle
    · have hthis : Recovers s i w l := fun c p h => absurd ⟨c, h⟩ hmove
      refine .inl ⟨?_, Along.snoc.mpr ⟨htr, hthis⟩⟩
      rw [stepChecked_eq] at hs
      obtain ⟨-, heq⟩ | ⟨s', c, rfl, heq⟩ := asDeath_cases w l
      · rw [heq] at hs
        exact hP.other hok ⟨fun c h => hmove ⟨c, h⟩, hok.alive⟩ hs
      · rw [heq] at hs
        have hne : s' ≠ s := fun h => hmove ⟨c, h ▸ rfl⟩
        have hapart : SoleActor s i w (.crash s' : Label σ η) :=
          ⟨hok.busy, fun h => hne (Label.crash.inj h), fun _ _ _ h => (by cases h),
            fun _ _ _ h => (by cases h)⟩
        exact hP.other hapart ⟨fun _ h => (by cases h), hapart.alive⟩ hs
  · exact absurd hidle hok.busy

/-- The fuel of the execution in slot `s`. -/
def World.fuel (retry : RetryConfig) (s : σ) (u : World σ η) : Nat :=
  (u.workers s).elim 0 fun e => e.phase.fuel retry

/-- A step of the execution costs fuel, a step of anybody else does not add any. -/
theorem fuel_step {s : σ} {i : ItemId} {l : Label σ η} (hok : SoleActor s i w l)
    (hs : stepChecked cfg w l = some w') :
    w'.fuel cfg.retry s + (if l.execBy == some s then 1 else 0) ≤ w.fuel cfg.retry s := by
  obtain ⟨e, he⟩ := Option.ne_none_iff_exists'.mp hok.busy
  have hpos : 0 < w.fuel cfg.retry s := by
    simp only [World.fuel, he, Option.elim_some]
    exact e.phase.fuel_pos
  rw [stepChecked_eq] at hs
  by_cases hmove : ∃ c, l = .exec s c
  · obtain ⟨c, rfl⟩ := hmove
    simp only [Label.execBy, beq_self_eq_true, if_true]
    obtain ⟨-, heq⟩ | ⟨s', c', hl, heq⟩ := asDeath_cases w (.exec s c)
    · rw [heq] at hs
      obtain ⟨e', he', rfl⟩ := step_exec hs
      obtain rfl := Option.some.inj (he.symm.trans he')
      simp only [World.fuel, he, World.afterExec_workers, Function.update_self, Option.elim_some]
      cases hn : (executeRunItem cfg c e.rid w.store e.phase).2 with
      | goto p' => exact executeRunItem_fuel hn
      | _ => simpa [Next.phase?] using Nat.succ_le_of_lt e.phase.fuel_pos
    · obtain ⟨rfl, -⟩ := Label.exec.inj hl
      rw [heq] at hs
      have hidle : w'.workers s = none := by
        cases step_cases hs with
        | died => simp
      simp only [World.fuel, hidle, Option.elim_none] at hpos ⊢
      omega
  · have hno : (l.execBy == some s) = false := by
      rw [beq_eq_false_iff_ne]
      exact fun h => hmove (Solo.exec (w := w) h)
    have hspare : (asDeath w l).Spares s := by
      obtain ⟨-, heq⟩ | ⟨s', c, rfl, heq⟩ := asDeath_cases w l
      · rw [heq]
        exact ⟨fun c h => hmove ⟨c, h⟩, hok.alive⟩
      · rw [heq]
        exact ⟨fun _ h => (by cases h), fun h => hmove ⟨c, Label.crash.inj h ▸ rfl⟩⟩
    simp [World.fuel, he, hno, step_worker_stays hs he hspare]

/-- The second execution works alone. -/
theorem SoleActor.of_solo {σ η : Type} [DecidableEq σ] {w : World σ η}
    {s : σ} {i : ItemId} {l : Label σ η}
    (h : (w.workers s).isSome = true ∧ (l.execBy == some s) = true) : SoleActor s i w l := by
  obtain ⟨c, rfl⟩ := Solo.exec (w := w) (beq_iff_eq.mp h.2)
  exact ⟨Option.isSome_iff_ne_none.mp h.1, fun h => (by cases h),
    fun _ _ _ h hne => absurd (Label.exec.inj h).1.symm hne, fun _ _ _ h => (by cases h)⟩

/-- Worker 0 takes item 0 and dies after `n` steps, and the message goes to worker 1. -/
def dyingAfter (n : Nat) : List (Label Nat Nat) :=
  launch 0 1 ++ [.deliver 0 0] ++ execs 0 answers n

end EvalHarness
