/-
# What an open transaction holds

The versions of open transactions fit the committed rows they will replace: a held item is a
dead letter about to be queued, a held run is a failed one about to be reopened or a running one
about to be settled (`Transacting`).  No statement of any schedule breaks this (`transacting_stmt`).

* **What others do.**  A row that is held can be changed by its holder alone: `stmt` refuses a whole
  transition that would change one, and an update of it waits.  So what a version was written over
  is still what is committed, in whole transitions (`Transacting.whole`) as in the statements of
  the two transactions.
* **What the holder does.**  Only a replay's first update writes an item, and only when it sees a
  dead letter (`Transacting.requeue`).  A run is written in the second update of a replay
  (`Transacting.reopen`) and in the two of a completion check (`Transacting.run_of_update` with
  `Transacting.check`).
* **What a commit does.**  It replaces each held row by its version and ends the hold
  (`Transacting.commit`).  By `committed_item` and `committed_run` a reader can tell from the
  version alone what has changed, which is all that `Replay` and `Completion` use.

What the transaction level keeps from `System` is `Sane`: a commit is no transition of `step`, so
`Transacting.sane_commit` proves it once more, from the versions.
-/
import EvalHarness.Statements

namespace EvalHarness

open Lts

variable {σ η : Type} [DecidableEq σ] [DecidableEq η] {cfg : Config} {W W' : Session σ η}

/-! ## 1. What is held -/

/-- The version that a transaction holds of the row of run `r`. -/
inductive RunVersion (W : Session σ η) (r : RunId) (run : EvalRun) :
    Party σ η → EvalRun → Prop
  | reopened {h i} (hx : W.world.handlers h = some (.replayCommit i r))
      (ht : W.replays h = some .commit) (hst : run.status = .failed) :
      RunVersion W r run (.inr h)
        { run with status := .running, completedAt := none, error := none }
  | settled {s i v ret st now} (he : W.world.workers s = some ⟨i, .at v (.maybeComplete ret)⟩)
      (hv : v.evalRunId = r)
      (ht : W.checks s = some .updateCompleted ∨ W.checks s = some .commit)
      (hst : run.status = .running) (hto : st = .failed ∨ st = .completed) :
      RunVersion W r run (.inl s) { run with status := st, completedAt := some now }

/-- What holds between any two statements. -/
structure Transacting (cfg : Config) (W : Session σ η) : Prop where
  sane : Sane cfg W.world
  /-- A held item is a dead letter, and its version is queued. -/
  item : ∀ i o row', W.items.get i = some (o, row') →
    ∃ h r row, o = .inr h ∧ W.world.handlers h = some (.replayCommit i r) ∧ W.replays h ≠ none ∧
      W.world.store.db.items.get i = some row ∧ row.status = .deadLettered ∧
      row' = { row with status := .queued, error := none }
  run : ∀ r o run', W.runs.get r = some (o, run') →
    ∃ run, W.world.store.db.runs.get r = some run ∧ RunVersion W r run o run'
  replays : ∀ h, W.replays h ≠ none → ∃ i r, W.world.handlers h = some (.replayCommit i r)
  checks : ∀ s, W.checks s ≠ none →
    ∃ i v ret, W.world.workers s = some ⟨i, .at v (.maybeComplete ret)⟩

theorem transacting_init {σ η : Type} : Transacting cfg (Session.init : Session σ η) where
  sane := sane_init
  item i o row' h := absurd h (by simp [Session.init, Session.between])
  run r o run' h := absurd h (by simp [Session.init, Session.between])
  replays h ht := absurd rfl ht
  checks s ht := absurd rfl ht

/-- What a commit makes of an item row: nothing, or the version its transaction held. -/
theorem Transacting.committed_item (hT : Transacting cfg W) (o : Party σ η) {i : ItemId}
    {row : RunItem} (hrow : W.world.store.db.items.get i = some row) :
    ∃ row', (W.committed o).items.get i = some row' ∧
      (row' = row ∧ (∀ row₁, W.items.get i ≠ some (o, row₁)) ∨
        W.items.get i = some (o, row') ∧ row.status = .deadLettered ∧
          row' = { row with status := .queued, error := none }) := by
  have hget : (W.committed o).items.get i = some ((W.items.own o i).getD row) := by
    simp [Session.committed, Pending.get_commit, hrow]
  cases ho : W.items.own o i with
  | none =>
    refine ⟨row, by rw [hget, ho]; rfl, Or.inl ⟨rfl, fun row₁ h => ?_⟩⟩
    rw [Pending.own_eq_some.mpr h] at ho
    exact absurd ho (by simp)
  | some row' =>
    have hp := Pending.own_eq_some.mp ho
    obtain ⟨h, r, row₀, -, -, -, hrow₀, hst, hrow'⟩ := hT.item i o row' hp
    obtain rfl := Option.some.inj (hrow.symm.trans hrow₀)
    exact ⟨row', by rw [hget, ho]; rfl, Or.inr ⟨hp, hst, hrow'⟩⟩

/-- What a commit makes of a run row. -/
theorem Transacting.committed_run (hT : Transacting cfg W) (o : Party σ η) {r : RunId}
    {run : EvalRun} (hr : W.world.store.db.runs.get r = some run) :
    ∃ run', (W.committed o).runs.get r = some run' ∧
      (run' = run ∧ (∀ run₁, W.runs.get r ≠ some (o, run₁)) ∨
        W.runs.get r = some (o, run') ∧ RunVersion W r run o run') := by
  have hget : (W.committed o).runs.get r = some ((W.runs.own o r).getD run) := by
    simp [Session.committed, Pending.get_commit, hr]
  cases ho : W.runs.own o r with
  | none =>
    refine ⟨run, by rw [hget, ho]; rfl, Or.inl ⟨rfl, fun run₁ h => ?_⟩⟩
    rw [Pending.own_eq_some.mpr h] at ho
    exact absurd ho (by simp)
  | some run' =>
    have hp := Pending.own_eq_some.mp ho
    obtain ⟨run₀, hr₀, hv⟩ := hT.run r o run' hp
    obtain rfl := Option.some.inj (hr.symm.trans hr₀)
    exact ⟨run', by rw [hget, ho]; rfl, Or.inr ⟨hp, hv⟩⟩

/-- A commit adds no row. -/
theorem Session.get_of_committed {o : Party σ η} :
    (∀ {i row'}, (W.committed o).items.get i = some row' →
      ∃ row, W.world.store.db.items.get i = some row) ∧
    (∀ {r run'}, (W.committed o).runs.get r = some run' →
      ∃ run, W.world.store.db.runs.get r = some run) := by
  constructor
  · intro i row' h
    simp only [Session.committed, Pending.get_commit, Option.map_eq_some_iff] at h
    obtain ⟨row, hrow, -⟩ := h
    exact ⟨row, hrow⟩
  · intro r run' h
    simp only [Session.committed, Pending.get_commit, Option.map_eq_some_iff] at h
    obtain ⟨run, hr, -⟩ := h
    exact ⟨run, hr⟩

/-- What the state after a commit has in common with the state before it. -/
structure CommitOf (W : Session σ η) (o : Party σ η) (w' : World σ η) : Prop where
  db : w'.store.db = W.committed o
  queue : w'.store.queue = W.world.store.queue
  sent : w'.store.sent = W.world.store.sent
  workers : ∀ s e, w'.workers s = some e → W.world.workers s = some e
  handlers : ∀ h x, w'.handlers h = some x → W.world.handlers h = some x ∨
    ∃ i r, W.world.handlers h = some (.replayCommit i r) ∧ x = .replayEnqueue i

/-- What holds in every state of `step` holds after a commit: the versions change no column it reads
but the statuses. -/
theorem Transacting.sane_commit (hT : Transacting cfg W) {o : Party σ η} {w' : World σ η}
    (hc : CommitOf W o w') : Sane cfg w' := by
  have hitem : ∀ {i row'}, w'.store.db.items.get i = some row' →
      ∃ row, W.world.store.db.items.get i = some row ∧ row'.evalRunId = row.evalRunId ∧
        row'.taskId = row.taskId ∧ row'.modelEndpointId = row.modelEndpointId := by
    intro i row' hrow'
    rw [hc.db] at hrow'
    obtain ⟨row, hrow⟩ := Session.get_of_committed.1 hrow'
    obtain ⟨row₁, hrow₁, hcase⟩ := hT.committed_item o hrow
    obtain rfl := Option.some.inj (hrow₁.symm.trans hrow')
    rcases hcase with ⟨rfl, -⟩ | ⟨-, -, rfl⟩
    · exact ⟨_, hrow, rfl, rfl, rfl⟩
    · exact ⟨row, hrow, rfl, rfl, rfl⟩
  have hsame : ∀ {i row}, W.world.store.db.items.get i = some row →
      ∃ row', w'.store.db.items.get i = some row' ∧ row'.evalRunId = row.evalRunId ∧
        row'.taskId = row.taskId ∧ row'.modelEndpointId = row.modelEndpointId := by
    intro i row hrow
    obtain ⟨row', hrow', hcase⟩ := hT.committed_item o hrow
    refine ⟨row', hc.db ▸ hrow', ?_⟩
    rcases hcase with ⟨rfl, -⟩ | ⟨-, -, rfl⟩ <;> exact ⟨rfl, rfl, rfl⟩
  have hisSome : ∀ {i}, (W.world.store.db.items.get i).isSome → (w'.store.db.items.get i).isSome := by
    intro i h
    obtain ⟨row, hrow⟩ := Option.isSome_iff_exists.mp h
    obtain ⟨row', hrow', -⟩ := hsame hrow
    simp [hrow']
  have hrunOf : ∀ {i r}, W.world.runOf i = some r → w'.runOf i = some r := by
    intro i r h
    obtain ⟨row, hrow, rfl⟩ := Option.map_eq_some_iff.mp h
    obtain ⟨row', hrow', hr, -⟩ := hsame hrow
    simp [World.runOf, hrow', hr]
  exact
  { run_of_item := by
      intro i row' hrow'
      obtain ⟨row, hrow, hr, -⟩ := hitem hrow'
      obtain ⟨run, hrun⟩ := hT.sane.run_of_item i row hrow
      obtain ⟨run', hrun', -⟩ := hT.committed_run o hrun
      exact ⟨run', by rw [hr, hc.db]; exact hrun'⟩
    catalog_of_item := by
      intro i row' hrow'
      obtain ⟨row, hrow, -, ht, he⟩ := hitem hrow'
      rw [ht, he]
      exact hT.sane.catalog_of_item i row hrow
    known := fun s e he => hc.sent ▸ hT.sane.known s e (hc.workers s e he)
    loaded := by
      intro s i v pc he
      obtain ⟨row, hrow, hv, hend, htask⟩ := hT.sane.loaded s i v pc (hc.workers s _ he)
      obtain ⟨row', hrow', h1, h2, h3⟩ := hsame hrow
      exact ⟨row', hrow', hv.trans h1.symm, by rw [h3]; exact hend, by rw [h2]; exact htask⟩
    skipping := by
      intro s i v pc he hpc
      obtain ⟨run, hr, hst⟩ := Option.map_eq_some_iff.mp
        (hT.sane.skipping s i v pc (hc.workers s _ he) hpc)
      obtain ⟨run', hr', hcase⟩ := hT.committed_run o hr
      rcases hcase with ⟨rfl, -⟩ | ⟨-, hver⟩
      · simp [World.runStatusOf, hc.db, hr', hst]
      · cases hver with
        | reopened _ _ h | settled _ _ _ h => exact absurd (hst.symm.trans h) (by simp)
    not_pending := by
      intro r run' hr'
      rw [hc.db] at hr'
      obtain ⟨run, hr⟩ := Session.get_of_committed.2 hr'
      obtain ⟨run₁, hr₁, hcase⟩ := hT.committed_run o hr
      obtain rfl := Option.some.inj (hr₁.symm.trans hr')
      rcases hcase with ⟨rfl, -⟩ | ⟨-, hver⟩
      · exact hT.sane.not_pending r run₁ hr
      · cases hver with
        | reopened => simp
        | settled _ _ _ _ hto => rcases hto with rfl | rfl <;> simp
    replaying := by
      intro h x i r hx hk
      rcases hc.handlers h x hx with hx | ⟨_, _, -, rfl⟩
      · exact hrunOf (hT.sane.replaying h x i r hx hk)
      · exact absurd hk (by simp [Handler.replays])
    owing := by
      intro h x i hx hi
      rcases hc.handlers h x hx with hx₀ | ⟨j, r, hx₀, rfl⟩
      · exact hisSome (hT.sane.owing h x i hx₀ hi)
      · obtain rfl : i = j := by simpa [Handler.owes] using hi
        obtain ⟨row, hrow, -⟩ := Option.map_eq_some_iff.mp (hT.sane.replaying h _ i r hx₀ rfl)
        exact hisSome (by simp [hrow])
    queued := fun i hi => hc.sent ▸ hT.sane.queued i (hc.queue ▸ hi)
    sent := fun i hi => hisSome (hT.sane.sent i (hc.sent ▸ hi)) }

/-! ## 2. Every statement keeps it -/

theorem Session.rollback_world (l : Label σ η) : (W.rollback l).world = W.world := by
  cases l <;> rfl

/-- A version that survives a rollback was there before, and its party was not ended. -/
theorem Session.rollback_items {l : Label σ η} {i : ItemId} {o : Party σ η} {row : RunItem}
    (h : (W.rollback l).items.get i = some (o, row)) :
    W.items.get i = some (o, row) ∧ ∀ h, o = .inr h → l ≠ .drop h := by
  cases l with
  | crash s =>
    exact ⟨(Pending.get_release.mp h).1, fun _ _ => by simp⟩
  | drop h' =>
    obtain ⟨hi, ho⟩ := Pending.get_release.mp h
    refine ⟨hi, ?_⟩
    rintro h rfl hl
    obtain rfl := Label.drop.inj hl
    exact ho rfl
  | _ => exact ⟨h, fun _ _ => by simp⟩

/-- The versions of a request that was not dropped survive. -/
theorem Session.rollback_keeps {l : Label σ η} {h : η} (hl : l ≠ .drop h) :
    (∀ {i row}, W.items.get i = some (.inr h, row) →
      (W.rollback l).items.get i = some (.inr h, row)) ∧
    ∀ {r run}, W.runs.get r = some (.inr h, run) →
      (W.rollback l).runs.get r = some (.inr h, run) := by
  cases l with
  | crash s =>
    exact ⟨fun hi => Pending.get_release.mpr ⟨hi, by simp⟩,
      fun hr => Pending.get_release.mpr ⟨hr, by simp⟩⟩
  | drop h' =>
    have hne : (Sum.inr h : Party σ η) ≠ .inr h' := by
      intro e
      rw [Sum.inr.inj e] at hl
      exact hl rfl
    exact ⟨fun hi => Pending.get_release.mpr ⟨hi, hne⟩, fun hr => Pending.get_release.mpr ⟨hr, hne⟩⟩
  | _ => exact ⟨id, id⟩

theorem Session.rollback_runs {l : Label σ η} {r : RunId} {o : Party σ η} {run : EvalRun}
    (h : (W.rollback l).runs.get r = some (o, run)) :
    W.runs.get r = some (o, run) ∧ (∀ h, o = .inr h → l ≠ .drop h) ∧
      ∀ s, o = .inl s → l ≠ .crash s := by
  cases l with
  | crash s' =>
    obtain ⟨hr, ho⟩ := Pending.get_release.mp h
    refine ⟨hr, fun _ _ => by simp, ?_⟩
    rintro s rfl hl
    obtain rfl := Label.crash.inj hl
    exact ho rfl
  | drop h' =>
    obtain ⟨hr, ho⟩ := Pending.get_release.mp h
    refine ⟨hr, ?_, fun _ _ => by simp⟩
    rintro h rfl hl
    obtain rfl := Label.drop.inj hl
    exact ho rfl
  | _ => exact ⟨h, fun _ _ => by simp, fun _ _ => by simp⟩

theorem Session.rollback_replays {l : Label σ η} {h : η} (hl : l ≠ .drop h) :
    (W.rollback l).replays h = W.replays h := by
  cases l with
  | drop h' => simp [rollback, close, show h' ≠ h from fun e => hl (e ▸ rfl)]
  | crash s => simp [rollback, close]
  | _ => rfl

theorem Session.rollback_checks {l : Label σ η} {s : σ} (hl : l ≠ .crash s) :
    (W.rollback l).checks s = W.checks s := by
  cases l with
  | crash s' => simp [rollback, close, show s' ≠ s from fun e => hl (e ▸ rfl)]
  | drop h => simp [rollback, close]
  | _ => rfl

theorem Session.drop_of_replays {l : Label σ η} {h : η} (ht : (W.rollback l).replays h ≠ none) :
    l ≠ .drop h := by
  rintro rfl
  exact ht (by simp [rollback, close])

theorem Session.crash_of_checks {l : Label σ η} {s : σ} (ht : (W.rollback l).checks s ≠ none) :
    l ≠ .crash s := by
  rintro rfl
  exact ht (by simp [rollback, close])

/-- A whole transition leaves a request before its transaction where it is. -/
theorem handler_stays {l : Label σ η} {w : World σ η} (hs : step cfg W.world l = some w)
    (hl : W.world.splits l = false) {h : η} {i : ItemId} {r : RunId}
    (hx : W.world.handlers h = some (.replayCommit i r)) (hd : l ≠ .drop h) :
    w.handlers h = some (.replayCommit i r) := by
  refine step_request_stays hs hx (fun now hn => ?_) hd
  subst hn
  exact absurd hl (by simp [World.splits, hx])

/-- And an execution before its completion check. -/
theorem worker_stays {l : Label σ η} {w : World σ η} (hs : step cfg W.world l = some w)
    (hl : W.world.splits l = false) {s : σ} {i : ItemId} {v : Loaded} {ret : Return}
    (he : W.world.workers s = some ⟨i, .at v (.maybeComplete ret)⟩) (hd : l ≠ .crash s) :
    w.workers s = some ⟨i, .at v (.maybeComplete ret)⟩ := by
  refine step_worker_stays hs he ⟨fun c hc => ?_, hd⟩
  subst hc
  exact absurd hl (by simp [World.splits, he])

theorem Session.spares_iff {σ η : Type} {W : Session σ η} {w : World σ η} : W.spares w = true ↔
    (∀ i o row, W.items.get i = some (o, row) →
      w.store.db.items.get i = W.world.store.db.items.get i) ∧
    ∀ r o run, W.runs.get r = some (o, run) →
      w.store.db.runs.get r = W.world.store.db.runs.get r := by
  simp only [spares, Bool.and_eq_true, Pending.spares_iff]

/-- **A whole transition** moves no holder, and what it ends it also rolls back. -/
theorem Transacting.whole (hT : Transacting cfg W) {l : Label σ η} {w : World σ η}
    (hs : step cfg W.world l = some w) (hl : W.world.splits l = false) (hw : W.spares w = true) :
    Transacting cfg ({ W with world := w }.rollback l) where
  sane := by
    rw [Session.rollback_world]
    exact sane_step hT.sane hs
  item := by
    intro i o row' hi
    obtain ⟨hi, hd⟩ := Session.rollback_items hi
    obtain ⟨h, r, row, rfl, hx, ht, hrow, hst, hrow'⟩ := hT.item i o row' hi
    rw [Session.rollback_world]
    exact ⟨h, r, row, rfl, handler_stays hs hl hx (hd h rfl),
      by rw [Session.rollback_replays (hd h rfl)]; exact ht,
      ((Session.spares_iff.mp hw).1 i _ _ hi).trans hrow, hst, hrow'⟩
  run := by
    intro r o run' hr
    obtain ⟨hr, hd, hc⟩ := Session.rollback_runs hr
    obtain ⟨run, hrun, hver⟩ := hT.run r o run' hr
    rw [Session.rollback_world]
    refine ⟨run, ((Session.spares_iff.mp hw).2 r _ _ hr).trans hrun, ?_⟩
    cases hver with
    | @reopened h i hx ht hst =>
      exact .reopened (by rw [Session.rollback_world]; exact handler_stays hs hl hx (hd h rfl))
        (by rw [Session.rollback_replays (hd h rfl)]; exact ht) hst
    | @settled s i v ret st now he hv ht hst hto =>
      exact .settled (by rw [Session.rollback_world]; exact worker_stays hs hl he (hc s rfl)) hv
        (by rw [Session.rollback_checks (hc s rfl)]; exact ht) hst hto
  replays := by
    intro h ht
    have hd := Session.drop_of_replays ht
    rw [Session.rollback_replays hd] at ht
    obtain ⟨i, r, hx⟩ := hT.replays h ht
    rw [Session.rollback_world]
    exact ⟨i, r, handler_stays hs hl hx hd⟩
  checks := by
    intro s ht
    have hd := Session.crash_of_checks ht
    rw [Session.rollback_checks hd] at ht
    obtain ⟨i, v, ret, he⟩ := hT.checks s ht
    rw [Session.rollback_world]
    exact ⟨i, v, ret, worker_stays hs hl he hd⟩

/-- A commit leaves the rows that others hold, and where the others stand. -/
theorem Transacting.commit (hT : Transacting cfg W) {o : Party σ η} {w' : World σ η}
    (hc : CommitOf W o w')
    (hh : ∀ h x, o ≠ .inr h → W.world.handlers h = some x → w'.handlers h = some x)
    (hw : ∀ s e, o ≠ .inl s → W.world.workers s = some e → w'.workers s = some e) :
    Transacting cfg ({ W with world := w' }.close o) where
  sane := hT.sane_commit hc
  item := by
    intro i o' row' hi
    obtain ⟨hi, ho⟩ := Pending.get_release.mp hi
    obtain ⟨h, r, row, rfl, hx, ht, hrow, hst, hrow'⟩ := hT.item i o' row' hi
    -- two parties never hold one row, so the commit has left this one alone
    obtain ⟨row₁, hrow₁, ⟨rfl, -⟩ | ⟨hown, -⟩⟩ := hT.committed_item o hrow
    · refine ⟨h, r, row₁, rfl, hh h _ (Ne.symm ho) hx, ?_, hc.db ▸ hrow₁, hst, hrow'⟩
      simpa [Session.close, Ne.symm ho] using ht
    · exact absurd (Prod.mk.inj (Option.some.inj (hi.symm.trans hown))).1 ho
  run := by
    intro r o' run' hr
    obtain ⟨hr, ho⟩ := Pending.get_release.mp hr
    obtain ⟨run, hrun, hver⟩ := hT.run r o' run' hr
    obtain ⟨run₁, hrun₁, ⟨rfl, -⟩ | ⟨hown, -⟩⟩ := hT.committed_run o hrun
    · refine ⟨run₁, hc.db ▸ hrun₁, ?_⟩
      cases hver with
      | reopened hx ht hst =>
        exact .reopened (hh _ _ (Ne.symm ho) hx) (by simpa [Session.close, Ne.symm ho] using ht) hst
      | settled he hv ht hst hto =>
        exact .settled (hw _ _ (Ne.symm ho) he) hv (by simpa [Session.close, Ne.symm ho] using ht)
          hst hto
    · exact absurd (Prod.mk.inj (Option.some.inj (hr.symm.trans hown))).1 ho
  replays := by
    intro h ht
    by_cases ho : o = .inr h
    · exact absurd (by simp [Session.close, ho]) ht
    · obtain ⟨i, r, hx⟩ := hT.replays h (by simpa [Session.close, ho] using ht)
      exact ⟨i, r, hh h _ ho hx⟩
  checks := by
    intro s ht
    by_cases ho : o = .inl s
    · exact absurd (by simp [Session.close, ho]) ht
    · obtain ⟨i, v, ret, he⟩ := hT.checks s (by simpa [Session.close, ho] using ht)
      exact ⟨i, v, ret, hw s _ ho he⟩

/-! The commits of the two transactions: the request goes on to publish, the execution ends. -/

theorem commitOf_replay {h : η} {rid : ItemId} {r : RunId}
    (hx : W.world.handlers h = some (.replayCommit rid r)) :
    CommitOf W (.inr h) ({ W.world with
      store := { W.world.store with db := W.committed (.inr h) } }.setHandler h
        (some (.replayEnqueue rid))) where
  db := rfl
  queue := rfl
  sent := rfl
  workers s e he := he
  handlers h' x hx' := by
    by_cases hh : h' = h
    · subst hh
      exact Or.inr ⟨rid, r, hx, by simpa using hx'.symm⟩
    · exact Or.inl (by simpa [Function.update_of_ne hh] using hx')

theorem commitOf_check {s : σ} {rid : ItemId} {ret : Return} :
    CommitOf W (.inl s) (W.world.afterExec s rid
      { W.world.store with db := W.committed (.inl s) } (.done ret)) where
  db := rfl
  queue := rfl
  sent := rfl
  workers s' e he := by
    by_cases hs : s' = s
    · subst hs
      exact absurd he (by simp [Next.phase?])
    · simpa [Function.update_of_ne hs] using he
  handlers h x hx := Or.inl hx

/-- A version of a run row is still one when nobody but `h'` has moved. -/
theorem RunVersion.of_replays {σ η : Type} {W W' : Session σ η}
    {r : RunId} {run run' : EvalRun} {o : Party σ η}
    (hv : RunVersion W r run o run') (h' : η) (hworld : W'.world = W.world)
    (hc : W'.checks = W.checks) (ht : W.replays h' ≠ some .commit)
    (hr : ∀ h, h ≠ h' → W'.replays h = W.replays h) : RunVersion W' r run o run' := by
  cases hv with
  | @reopened h i hx hc' hst =>
    have hne : h ≠ h' := by
      rintro rfl
      exact ht hc'
    exact .reopened (hworld ▸ hx) ((hr h hne).trans hc') hst
  | settled he hv ht hst hto => exact .settled (hworld ▸ he) hv (hc ▸ ht) hst hto

/-- Nor is it another one when nobody but `s'` has. -/
theorem RunVersion.of_checks {σ η : Type} [DecidableEq σ] {W W' : Session σ η}
    {r : RunId} {run run' : EvalRun} {o : Party σ η}
    (hv : RunVersion W r run o run') (s' : σ) (hworld : W'.world = W.world)
    (hr : W'.replays = W.replays)
    (ht : W.checks s' = some .updateCompleted ∨ W.checks s' = some .commit →
      W'.checks s' = some .updateCompleted ∨ W'.checks s' = some .commit)
    (hc : ∀ s, s ≠ s' → W'.checks s = W.checks s) : RunVersion W' r run o run' := by
  cases hv with
  | reopened hx hc' hst => exact .reopened (hworld ▸ hx) (hr ▸ hc') hst
  | @settled s i v ret st now he hv ht' hst hto =>
    refine .settled (hworld ▸ he) hv ?_ hst hto
    by_cases hs : s = s'
    · subst hs
      exact ht ht'
    · rw [hc s hs]
      exact ht'

/-- The version an update of the run row adds, when it is one. -/
theorem Transacting.run_of_update (hT : Transacting cfg W) {o : Party σ η} {r : RunId}
    {g : EvalRun → Bool} {f : EvalRun → EvalRun} {runs : Pending (Party σ η) RunId EvalRun}
    (hu : W.runs.update W.world.store.db.runs o r g f = some runs)
    (hworld : W'.world = W.world) (hruns : W'.runs = runs)
    (hsees : ∀ run, W.runs.get r = some (o, run) → g run = false)
    (hold : ∀ {r run o' run'}, RunVersion W r run o' run' → RunVersion W' r run o' run')
    (hnew : ∀ run, W.world.store.db.runs.get r = some run → g run = true →
      RunVersion W' r run o (f run)) :
    ∀ r' o' run', W'.runs.get r' = some (o', run') →
      ∃ run, W'.world.store.db.runs.get r' = some run ∧ RunVersion W' r' run o' run' := by
  intro r' o' run' hr'
  rw [hruns] at hr'
  rw [hworld]
  rcases Pending.update_eq_some hu with ⟨rfl, -⟩ | ⟨run, hsee, hg, -, rfl⟩
  · obtain ⟨run, hrun, hv⟩ := hT.run r' o' run' hr'
    exact ⟨run, hrun, hold hv⟩
  · rw [Table.get_put] at hr'
    split at hr'
    · rename_i hrr
      subst hrr
      obtain ⟨rfl, rfl⟩ := Prod.mk.inj (Option.some.inj hr')
      -- `o` sees the committed row: the guard excludes a version of its own
      have hcom : W.world.store.db.runs.get r' = some run := by
        rw [← hsee, Pending.sees_committed]
        intro run₁ hown
        rw [Pending.sees, Pending.own_eq_some.mpr hown] at hsee
        obtain rfl := Option.some.inj hsee
        exact absurd hg (by simp [hsees run₁ hown])
      exact ⟨run, hcom, hnew run hcom hg⟩
    · obtain ⟨run, hrun, hv⟩ := hT.run r' o' run' hr'
      exact ⟨run, hrun, hold hv⟩

/-- The first update of a replay holds its item, if it sees a dead letter. -/
theorem Transacting.requeue (hT : Transacting cfg W) {h : η} {rid : ItemId} {r : RunId}
    {items : Pending (Party σ η) ItemId RunItem}
    (hx : W.world.handlers h = some (.replayCommit rid r)) (ht : W.replays h = none)
    (hu : W.items.update W.world.store.db.items (.inr h) rid
      (fun row => row.status == .deadLettered)
      (fun row => { row with status := .queued, error := none }) = some items) :
    Transacting cfg { W with items, replays := Function.update W.replays h (some .updateRun) } where
  sane := hT.sane
  item := by
    have hstill : ∀ h', W.replays h' ≠ none →
        Function.update W.replays h (some .updateRun) h' ≠ none := by
      intro h' ht'
      by_cases hh : h' = h
      · subst hh; simp
      · simpa [Function.update_of_ne hh] using ht'
    have hold : ∀ i o row', W.items.get i = some (o, row') → ∃ h' r row, o = .inr h' ∧
        W.world.handlers h' = some (.replayCommit i r) ∧
        Function.update W.replays h (some .updateRun) h' ≠ none ∧
        W.world.store.db.items.get i = some row ∧ row.status = .deadLettered ∧
        row' = { row with status := .queued, error := none } := by
      intro i o row' hi
      obtain ⟨h', r', row, ho, hx', ht', hrest⟩ := hT.item i o row' hi
      exact ⟨h', r', row, ho, hx', hstill h' ht', hrest⟩
    intro i o row' hi
    rcases Pending.update_eq_some hu with ⟨rfl, -⟩ | ⟨row, hsee, hg, -, rfl⟩
    · exact hold i o row' hi
    · simp only [Table.get_put] at hi
      split at hi
      · rename_i hir
        subst hir
        obtain ⟨rfl, rfl⟩ := Prod.mk.inj (Option.some.inj hi)
        rw [Pending.sees_committed] at hsee
        · exact ⟨h, r, row, rfl, hx, by simp, hsee, by simpa using hg, rfl⟩
        · -- its transaction is only now beginning
          intro row₁ hown
          obtain ⟨h', _, _, ho, -, ht', -⟩ := hT.item i _ _ hown
          obtain rfl := Sum.inr.inj ho
          exact ht' ht
      · exact hold i o row' hi
  run := by
    intro r' o run' hr
    obtain ⟨run, hrun, hv⟩ := hT.run r' o run' hr
    exact ⟨run, hrun, hv.of_replays h rfl rfl (by simp [ht])
      fun h' hh => Function.update_of_ne hh _ _⟩
  replays := by
    intro h' ht'
    by_cases hh : h' = h
    · subst hh; exact ⟨rid, r, hx⟩
    · exact hT.replays h' (by simpa [Function.update_of_ne hh] using ht')
  checks := hT.checks

/-- The second one holds its run, if that has failed. -/
theorem Transacting.reopen (hT : Transacting cfg W) {h : η} {rid : ItemId} {r : RunId}
    {runs : Pending (Party σ η) RunId EvalRun}
    (hx : W.world.handlers h = some (.replayCommit rid r)) (ht : W.replays h = some .updateRun)
    (hu : W.runs.update W.world.store.db.runs (.inr h) r (fun run => run.status == .failed)
      (fun run => { run with status := .running, completedAt := none, error := none }) =
        some runs) :
    Transacting cfg { W with runs, replays := Function.update W.replays h (some .commit) } where
  sane := hT.sane
  item := by
    intro i o row' hi
    obtain ⟨h', r', row, ho, hx', ht', hrest⟩ := hT.item i o row' hi
    refine ⟨h', r', row, ho, hx', ?_, hrest⟩
    by_cases hh : h' = h
    · subst hh; simp
    · simpa [Function.update_of_ne hh] using ht'
  run := by
    refine hT.run_of_update hu rfl rfl ?_ ?_ ?_
    · -- the request has no version of the run yet
      intro run hown
      obtain ⟨_, -, hv⟩ := hT.run r _ run hown
      cases hv with
      | reopened _ ht' _ => exact absurd (ht.symm.trans ht') (by simp)
    · intro _ _ _ _ hv
      exact hv.of_replays h rfl rfl (by simp [ht]) fun h' hh => Function.update_of_ne hh _ _
    · intro run _ hg
      exact .reopened hx (by simp) (by simpa using hg)
  replays := by
    intro h' ht'
    by_cases hh : h' = h
    · subst hh; exact ⟨rid, r, hx⟩
    · exact hT.replays h' (by simpa [Function.update_of_ne hh] using ht')
  checks := hT.checks

/-- The statements of a completion check that write nothing but its run. -/
theorem Transacting.check {σ η : Type} [DecidableEq σ] {W W' : Session σ η}
    (hT : Transacting cfg W) {s : σ} {rid : ItemId} {v : Loaded}
    {ret : Return} {t : CheckStmt} {runs : Pending (Party σ η) RunId EvalRun}
    (he : W.world.workers s = some ⟨rid, .at v (.maybeComplete ret)⟩)
    (hW : W' = { W with runs, checks := Function.update W.checks s (some t) })
    (hruns : ∀ r o run', W'.runs.get r = some (o, run') →
      ∃ run, W'.world.store.db.runs.get r = some run ∧ RunVersion W' r run o run') :
    Transacting cfg W' := by
  subst hW
  exact
  { sane := hT.sane
    item := hT.item
    run := hruns
    replays := hT.replays
    checks := by
      intro s' ht'
      by_cases hs : s' = s
      · subst hs; exact ⟨rid, v, ret, he⟩
      · exact hT.checks s' (by simpa [Function.update_of_ne hs] using ht') }

/-- A count that is not zero is a whole transition. -/
theorem step_of_counting {s : σ} {rid : ItemId} {v : Loaded} {ret : Return}
    (he : W.world.workers s = some ⟨rid, .at v (.maybeComplete ret)⟩)
    (hrem : remaining W.world.store.db v.evalRunId ≠ 0) (c : Choice) :
    step cfg W.world (.exec s c) = some (W.world.afterExec s rid W.world.store (.done ret)) := by
  simp [step, he, executeRunItem, stepRunItem, maybeCompleteRun, hrem]

theorem Transacting.counting (hT : Transacting cfg W) {s : σ} {rid : ItemId} {v : Loaded}
    {ret : Return} (he : W.world.workers s = some ⟨rid, .at v (.maybeComplete ret)⟩)
    (ht : W.checks s = none) (hrem : remaining W.world.store.db v.evalRunId ≠ 0) :
    Transacting cfg
      { W with world := W.world.afterExec s rid W.world.store (.done ret) } where
  sane := sane_step hT.sane (step_of_counting he hrem ⟨.retryable "", .raises "", 0⟩)
  item := hT.item
  run := by
    intro r o run' hr
    obtain ⟨run, hrun, hv⟩ := hT.run r o run' hr
    refine ⟨run, hrun, ?_⟩
    cases hv with
    | reopened hx hc hst => exact .reopened hx hc hst
    | @settled s' i v' ret' st now he' hv hc hst hto =>
      have hne : s' ≠ s := by
        rintro rfl
        simp [ht] at hc
      refine .settled (by simpa [Function.update_of_ne hne] using he') hv hc hst hto
  replays := hT.replays
  checks := by
    intro s' ht'
    have hne : s' ≠ s := by
      rintro rfl
      exact ht' ht
    simpa [Function.update_of_ne hne] using hT.checks s' ht'

/-- **Every statement** of every schedule keeps the versions fit. -/
theorem transacting_stmt {l : Stmt σ η} (hT : Transacting cfg W) (hs : stmt cfg W l = some W') :
    Transacting cfg W' := by
  cases stmt_cases hs with
  | whole hstep hl hw hW =>
    subst hW
    exact hT.whole hstep hl hw
  | requeue hx ht hu hW =>
    subst hW
    exact hT.requeue hx ht hu
  | reopen hx ht hu hW =>
    subst hW
    exact hT.reopen hx ht hu
  | @replayed h rid r hx ht hW =>
    subst hW
    refine hT.commit (commitOf_replay hx) (fun h' x ho hx' => ?_) fun _ _ _ he => he
    have hne : h' ≠ h := fun hh => ho (hh ▸ rfl)
    simpa [Function.update_of_ne hne] using hx'
  | @counted s now rid v ret he ht hrem hW =>
    refine hT.check he hW fun r o run' hr => ?_
    subst hW
    obtain ⟨run, hrun, hv⟩ := hT.run r o run' hr
    exact ⟨run, hrun, hv.of_checks s rfl rfl (by simp [ht]) fun s' hs => Function.update_of_ne hs _ _⟩
  | counting he ht hrem hW =>
    subst hW
    exact hT.counting he ht hrem
  | @failing s now rid v ret runs he ht hu hW =>
    refine hT.check he hW ?_
    subst hW
    refine hT.run_of_update hu rfl rfl ?_ ?_ ?_
    · -- nor has the check, before its first update
      intro run hown
      obtain ⟨_, -, hv⟩ := hT.run _ _ run hown
      cases hv with
      | settled _ _ ht' => simp [ht] at ht'
    · intro _ _ _ _ hv
      exact hv.of_checks s rfl rfl (by simp [ht]) fun s' hs => Function.update_of_ne hs _ _
    · intro run _ hg
      simp only [Bool.and_eq_true, beq_iff_eq] at hg
      exact .settled he rfl (by simp) hg.1 (Or.inl rfl)
  | @completing s now rid v ret runs he ht hu hW =>
    refine hT.check he hW ?_
    subst hW
    refine hT.run_of_update hu rfl rfl ?_ ?_ ?_
    · -- the version its first update has written is no longer `running`
      intro run hown
      obtain ⟨_, -, hv⟩ := hT.run _ _ run hown
      cases hv with
      | settled _ _ _ _ hto => rcases hto with rfl | rfl <;> rfl
    · intro _ _ _ _ hv
      exact hv.of_checks s rfl rfl (by simp) fun s' hs => Function.update_of_ne hs _ _
    · intro run _ hg
      exact .settled he rfl (by simp) (by simpa using hg) (Or.inr rfl)
  | @checked s now rid v ret he ht hW =>
    subst hW
    refine hT.commit commitOf_check (fun _ _ _ hx => hx) fun s' e ho he' => ?_
    have hne : s' ≠ s := fun hh => ho (hh ▸ rfl)
    simpa [Function.update_of_ne hne] using he'

end EvalHarness
