/-
# A replay and a completion check

`_maybe_complete_run` decides by a count that it made some statements ago, and takes no lock on
what it counted.  A replay that commits in between queues an item in a run that the check then
settles, and the item's next execution fails it with `eval run aborted`.  `replay_not_swallowed`
says what a schedule has to avoid for this not to happen, `replay_swallowed` is a schedule that
does not avoid it.
-/
import EvalHarness.Held
import EvalHarness.Progress

namespace EvalHarness

open Lts

variable {σ η : Type} [DecidableEq σ] [DecidableEq η] {cfg : Config} {W W' : Session σ η}

/-! ## 1. Open checks and open replays -/

/-- The run an execution is about to check. -/
def Phase.completionCheck : Phase → Option RunId
  | .at v (.maybeComplete _) => some v.evalRunId
  | _ => none

/-- The run whose status slot `s` is about to check, or checking. -/
def World.checksRun (w : World σ η) (s : σ) : Option RunId :=
  (w.workers s).bind fun e => e.phase.completionCheck

/-- The run of the replay that request `h` is about to write, or writing. -/
def World.replaysRun (w : World σ η) (h : η) : Option RunId :=
  match w.handlers h with
  | some (.replayCommit _ r) => some r
  | _ => none

/-- A completion check of run `r` has counted zero and not committed. -/
def OpenCheck (W : Session σ η) (r : RunId) : Prop :=
  ∃ s, W.world.checksRun s = some r ∧ W.checks s ≠ none

/-- A replay has made its update of run `r` and not committed. -/
def OpenReplay (W : Session σ η) (r : RunId) : Prop :=
  ∃ h, W.world.replaysRun h = some r ∧ W.replays h = some .commit

instance [Fintype σ] (W : Session σ η) (r : RunId) : Decidable (OpenCheck W r) :=
  inferInstanceAs (Decidable (∃ s, W.world.checksRun s = some r ∧ W.checks s ≠ none))

instance [Fintype η] (W : Session σ η) (r : RunId) : Decidable (OpenReplay W r) :=
  inferInstanceAs (Decidable (∃ h, W.world.replaysRun h = some r ∧ W.replays h = some .commit))

/-- The run whose status the commit of a completion check changes. -/
def settling (p : Session σ η × Stmt σ η) : Option RunId :=
  match p.2 with
  | .check s _ =>
    if p.1.checks s = some .commit then
      (p.1.world.checksRun s).filter fun r => (p.1.runs.own (.inl s) r).isSome
    else none
  | _ => none

/-- The run that a spend abort fails. -/
def abortingRun (cfg : Config) (p : Session σ η × Stmt σ η) : Option RunId :=
  match p.2 with
  | .whole (.exec s _) =>
    match p.1.world.workers s with
    | some ⟨_, .at v (.abortCheck _)⟩ =>
      if (p.1.world.store.db.runs.get v.evalRunId).any (overBudget cfg.spendLimit) then
        some v.evalRunId
      else none
    | _ => none
  | _ => none

/-- The run of a replay, at a given statement of its transaction. -/
def replayingRun (t : ReplayStmt) (p : Session σ η × Stmt σ η) : Option RunId :=
  match p.2 with
  | .replay h => if p.1.replays h = some t then p.1.world.replaysRun h else none
  | _ => none

/-- No replay commits under an open completion check of its run, or finds its run completed; no
check settles the run, and no spend abort fails it, behind the run update of an open replay. -/
structure Apart (cfg : Config) (W : Session σ η) (l : Stmt σ η) : Prop where
  commits : ∀ r ∈ replayingRun .commit (W, l), ¬ OpenCheck W r
  finds : ∀ r ∈ replayingRun .updateRun (W, l), W.world.runStatusOf r ≠ some .completed
  settles : ∀ r ∈ settling (W, l), ¬ OpenReplay W r
  aborts : ∀ r ∈ abortingRun cfg (W, l), ¬ OpenReplay W r

instance [Fintype σ] [Fintype η] (W : Session σ η) (l : Stmt σ η) : Decidable (Apart cfg W l) :=
  decidable_of_iff ((∀ r ∈ replayingRun .commit (W, l), ¬ OpenCheck W r) ∧
    (∀ r ∈ replayingRun .updateRun (W, l), W.world.runStatusOf r ≠ some .completed) ∧
    (∀ r ∈ settling (W, l), ¬ OpenReplay W r) ∧ ∀ r ∈ abortingRun cfg (W, l), ¬ OpenReplay W r)
    ⟨fun h => ⟨h.1, h.2.1, h.2.2.1, h.2.2.2⟩, fun h => ⟨h.1, h.2, h.3, h.4⟩⟩

/-! ## 2. The invariant -/

/-- The run can still be worked on, or is cancelled. -/
def World.Unsettled (w : World σ η) (r : RunId) : Prop :=
  w.runStatusOf r ≠ some .failed ∧ w.runStatusOf r ≠ some .completed

/-- The items of run `r` that are queued. -/
def World.HasQueued (w : World σ η) (r : RunId) : Prop :=
  ∃ i row, w.store.db.items.get i = some row ∧ row.evalRunId = r ∧ row.status = .queued

structure Kept (cfg : Config) (W : Session σ η) : Prop where
  transacting : Transacting cfg W
  queued : ∀ r, W.world.HasQueued r → W.world.Unsettled r
  /-- What a completion check has counted still counts zero queued items. -/
  counted : ∀ r, OpenCheck W r → ¬ W.world.HasQueued r
  /-- A replay before its commit has reopened its run, or the run needs no reopening. -/
  reopened : ∀ h r, W.world.replaysRun h = some r → W.replays h = some .commit →
    (∃ run, W.runs.get r = some (.inr h, run)) ∨ W.world.Unsettled r

theorem kept_init {σ η : Type} : Kept cfg (Session.init : Session σ η) where
  transacting := transacting_init
  queued r h := by
    obtain ⟨i, row, hrow, -⟩ := h
    exact absurd hrow (by simp [Session.init, Session.between, World.init, Db.empty])
  counted r h := by
    obtain ⟨s, -, ht⟩ := h
    exact absurd rfl ht
  reopened h r hx := absurd hx (by simp [Session.init, Session.between, World.init, World.replaysRun])

theorem replaysRun_iff {σ η : Type} {w : World σ η} {h : η} {r : RunId} :
    w.replaysRun h = some r ↔ ∃ i, w.handlers h = some (.replayCommit i r) := by
  unfold World.replaysRun
  split
  · rename_i i r' hx
    constructor
    · intro e
      obtain rfl := Option.some.inj e
      exact ⟨i, hx⟩
    · rintro ⟨i', hx'⟩
      simpa using (Handler.replayCommit.inj (Option.some.inj (hx.symm.trans hx'))).2
  · rename_i hno
    constructor
    · exact fun h => absurd h (by simp)
    · rintro ⟨i, hx⟩
      exact absurd hx (hno i r)

theorem checksRun_iff {σ η : Type} {w : World σ η} {s : σ} {r : RunId} :
    w.checksRun s = some r ↔
      ∃ i v ret, w.workers s = some ⟨i, .at v (.maybeComplete ret)⟩ ∧ v.evalRunId = r := by
  constructor
  · intro h
    obtain ⟨⟨i, p⟩, he, hp⟩ := Option.bind_eq_some_iff.mp h
    cases p with
    | start => exact absurd hp (by simp [Phase.completionCheck])
    | «at» v pc =>
      cases pc with
      | maybeComplete ret => exact ⟨i, v, ret, he, by simpa [Phase.completionCheck] using hp⟩
      | _ => exact absurd hp (by simp [Phase.completionCheck])
  · rintro ⟨i, v, ret, he, rfl⟩
    simp [World.checksRun, he, Phase.completionCheck]

/-! ## 3. Whole transitions -/

theorem exec_of_abortingRun {σ η : Type} {W : Session σ η} {l : Label σ η} {r : RunId}
    (ha : abortingRun cfg (W, .whole l) = some r) :
    ∃ s c j v res run, l = .exec s c ∧ W.world.workers s = some ⟨j, .at v (.abortCheck res)⟩ ∧
      v.evalRunId = r ∧ W.world.store.db.runs.get v.evalRunId = some run ∧
      overBudget cfg.spendLimit run = true := by
  cases l with
  | exec s c =>
    simp only [abortingRun] at ha
    split at ha
    · rename_i j v res he
      split at ha
      · rename_i hover
        obtain ⟨run, hr, hover⟩ := (Option.any_eq_true ..).mp hover
        exact ⟨s, c, j, v, res, run, rfl, he, Option.some.inj ha, hr, hover⟩
      · exact absurd ha (by simp)
    · exact absurd ha (by simp)
  | _ => exact absurd ha (by simp [abortingRun])

/-- A whole transition that leaves a queued item in a run left it there, without aborting the run,
or created the run. -/
theorem hasQueued_of_whole (hS : Sane cfg W.world) {l : Label σ η} {w : World σ η}
    (hs : step cfg W.world l = some w) (hl : W.world.splits l = false) {r : RunId}
    (h : w.HasQueued r) :
    W.world.HasQueued r ∧ abortingRun cfg (W, .whole l) ≠ some r ∨
      W.world.store.db.runs.get r = none ∧ w.runStatusOf r = some .running := by
  obtain ⟨i, row', hrow', rfl, hst⟩ := h
  cases hrow : W.world.store.db.items.get i with
  | none =>
    right
    obtain ⟨h, payload, r, itemIds, now, rfl, hc, hi, p, rfl, -⟩ := step_item_new hs hrow' hrow
    have hnone := hc.fresh.2.2
    obtain ⟨run, hr⟩ := (sane_step hS hs).run_of_item i _ hrow'
    obtain ⟨_, _, ids, _, hlab, -, -, -, -, hrun⟩ := step_run_new hs hr hnone
    obtain ⟨-, -, -, rfl, -⟩ := Label.create.inj hlab
    rw [if_neg (List.ne_nil_of_mem hi)] at hrun
    exact ⟨hnone, by simp only [World.runStatusOf, hr, Option.map_some, hrun.1]⟩
  | some row =>
    left
    have hch := itemChange hs hrow hrow'
    cases hch with
    | keep =>
      refine ⟨⟨i, row', hrow, rfl, hst⟩, fun ha => ?_⟩
      -- an abort would have failed the item
      obtain ⟨s, c, j, v, res, run, rfl, he, hv, hr, hover⟩ := exec_of_abortingRun ha
      have hget := (step_of_abort hs he hr hover).1 i
      rw [hrow', hrow] at hget
      simp only [Option.map_some, hv, hst, and_self, if_true, Option.some.injEq] at hget
      rw [hget] at hst
      exact absurd hst (by simp)
    | requeue hx => exact absurd hl (by simp [World.splits, hx])
    | finalise => exact absurd hst (by simp [finalisedRow])
    | _ => exact absurd hst (by simp)

/-- Only a spend abort settles a run in a whole transition. -/
theorem unsettled_of_whole {l : Label σ η} {w : World σ η} (hs : step cfg W.world l = some w)
    (hl : W.world.splits l = false) {r : RunId} {run : EvalRun}
    (hr : W.world.store.db.runs.get r = some run) (ha : abortingRun cfg (W, .whole l) ≠ some r)
    (h : W.world.Unsettled r) : w.Unsettled r := by
  obtain ⟨run', hr', hch⟩ := step_run hs hr
  simp only [World.Unsettled, World.runStatusOf, hr, hr', Option.map_some, ne_eq,
    Option.some.injEq] at h ⊢
  cases hch with
  | keep => exact h
  | rollup => simpa [rollup] using h
  | abort he hv hover => exact absurd (by simp [abortingRun, he, hv, hr, hover]) ha
  | checkFailed he | checkCompleted he => exact absurd hl (by simp [World.splits, he])
  | cancel => exact ⟨by simp, by simp⟩
  | reopen => exact ⟨by simp, by simp⟩

theorem Kept.whole (hI : Kept cfg W) {l : Label σ η} {w : World σ η}
    (hs : stmt cfg W (.whole l) = some W') (hstep : step cfg W.world l = some w)
    (hl : W.world.splits l = false) (hW : W' = { W with world := w }.rollback l)
    (hok : Apart cfg W (.whole l)) : Kept cfg W' := by
  have hT := hI.transacting
  have hworld : W'.world = w := by rw [hW, Session.rollback_world]
  exact
  { transacting := transacting_stmt hT hs
    queued := by
      intro r hq
      rw [hworld] at hq ⊢
      rcases hasQueued_of_whole hT.sane hstep hl hq with ⟨hold, ha⟩ | ⟨-, hrun⟩
      · obtain ⟨run, hr⟩ : ∃ run, W.world.store.db.runs.get r = some run := by
          obtain ⟨i, row, hrow, rfl, -⟩ := hold
          exact hT.sane.run_of_item i row hrow
        exact unsettled_of_whole hstep hl hr ha (hI.queued _ hold)
      · exact ⟨by simp [hrun], by simp [hrun]⟩
    counted := by
      rintro r ⟨s, hs', ht⟩ hq
      rw [hworld] at hs' hq
      rw [hW] at ht
      have hd := Session.crash_of_checks ht
      rw [Session.rollback_checks hd] at ht
      obtain ⟨i, v, ret, he⟩ := hT.checks s ht
      have he' := worker_stays hstep hl he hd
      have hr : v.evalRunId = r := by simpa [World.checksRun, he', Phase.completionCheck] using hs'
      have hopen : OpenCheck W r := ⟨s, checksRun_iff.mpr ⟨i, v, ret, he, hr⟩, ht⟩
      rcases hasQueued_of_whole hT.sane hstep hl hq with ⟨hold, -⟩ | ⟨hnone, -⟩
      · exact hI.counted r hopen hold
      · obtain ⟨row, hrow, hv, -⟩ := hT.sane.loaded s i v _ he
        obtain ⟨run, hrun⟩ := hT.sane.run_of_item i row hrow
        rw [← hv, hr, hnone] at hrun
        exact absurd hrun (by simp)
    reopened := by
      intro h r hx ht
      rw [hworld] at hx ⊢
      rw [hW] at ht ⊢
      have hd := Session.drop_of_replays (l := l) (h := h) (by rw [ht]; simp)
      rw [Session.rollback_replays hd] at ht
      obtain ⟨i, r', hx₀⟩ := hT.replays h (by rw [ht]; simp)
      obtain ⟨i', hx'⟩ := replaysRun_iff.mp hx
      obtain ⟨rfl, rfl⟩ := Handler.replayCommit.inj
        (Option.some.inj ((handler_stays hstep hl hx₀ hd).symm.trans hx'))
      have hr₀ := replaysRun_iff.mpr ⟨i, hx₀⟩
      rcases hI.reopened h r' hr₀ ht with ⟨run, hheld⟩ | hun
      · exact Or.inl ⟨run, (Session.rollback_keeps hd).2 hheld⟩
      · obtain ⟨row, hrow, rfl⟩ := Option.map_eq_some_iff.mp (hT.sane.replaying h _ i r' hx₀ rfl)
        obtain ⟨run, hrun⟩ := hT.sane.run_of_item i row hrow
        refine Or.inr (unsettled_of_whole hstep hl hrun (fun ha => ?_) hun)
        exact hok.aborts _ ha ⟨h, hr₀, ht⟩ }

/-! ## 4. Statements -/

/-- Statements that commit nothing. -/
theorem Kept.quiet (hI : Kept cfg W) {l : Stmt σ η} (hs : stmt cfg W l = some W')
    (hdb : W'.world.store.db = W.world.store.db)
    (hc : ∀ r, OpenCheck W' r → OpenCheck W r ∨ remaining W.world.store.db r = 0)
    (hr : ∀ h r, W'.world.replaysRun h = some r → W'.replays h = some .commit →
      (∃ run, W'.runs.get r = some (.inr h, run)) ∨ W.world.Unsettled r) : Kept cfg W' := by
  have hqueued : ∀ r, W'.world.HasQueued r ↔ W.world.HasQueued r := by
    intro r
    simp only [World.HasQueued, hdb]
  have hun : ∀ r, W'.world.Unsettled r ↔ W.world.Unsettled r := by
    intro r
    simp only [World.Unsettled, World.runStatusOf, hdb]
  exact
  { transacting := transacting_stmt hI.transacting hs
    queued := by
      intro r hq
      exact (hun r).mpr (hI.queued r ((hqueued r).mp hq))
    counted := by
      intro r ho hq
      rcases hc r ho with ho | hrem
      · exact hI.counted r ho ((hqueued r).mp hq)
      · obtain ⟨i, row, hrow, hrr, hst⟩ := (hqueued r).mp hq
        have := remaining_eq_zero.mp hrem i row hrow hrr
        simp [hst, RunItemStatus.isActive, RunItemStatus.isTerminal] at this
    reopened := by
      intro h r hx ht
      exact (hr h r hx ht).imp id (hun r).mpr }

/-- A check of the same run that goes on was open, or has counted just now. -/
theorem OpenCheck.of_update {σ η : Type} [DecidableEq σ] {W : Session σ η}
    {s : σ} {t : CheckStmt} {r : RunId}
    {runs : Pending (Party σ η) RunId EvalRun}
    (h : OpenCheck { W with runs, checks := Function.update W.checks s (some t) } r) :
    OpenCheck W r ∨ W.world.checksRun s = some r := by
  obtain ⟨s', hs', ht⟩ := h
  by_cases hss : s' = s
  · subst hss
    exact Or.inr hs'
  · exact Or.inl ⟨s', hs', by simpa [Function.update_of_ne hss] using ht⟩

theorem Kept.reopen (hI : Kept cfg W) {h : η} {rid : ItemId} {r : RunId}
    {runs : Pending (Party σ η) RunId EvalRun}
    (hx : W.world.handlers h = some (.replayCommit rid r)) (ht : W.replays h = some .updateRun)
    (hu : W.runs.update W.world.store.db.runs (.inr h) r (fun run => run.status == .failed)
      (fun run => { run with status := .running, completedAt := none, error := none }) =
        some runs)
    (hok : Apart cfg W (.replay h)) {h' : η} {r' : RunId} (hx' : W.world.replaysRun h' = some r')
    (ht' : Function.update W.replays h (some .commit) h' = some .commit) :
    (∃ run, runs.get r' = some (.inr h', run)) ∨ W.world.Unsettled r' := by
  by_cases hh : h' = h
  · subst hh
    have hr := replaysRun_iff.mpr ⟨rid, hx⟩
    obtain rfl := Option.some.inj (hr.symm.trans hx')
    rcases Pending.update_eq_some hu with ⟨-, hmiss⟩ | ⟨run, -, -, -, rfl⟩
    · right
      rw [Pending.sees_committed] at hmiss
      · refine ⟨fun hf => ?_, hok.finds r (by simp [replayingRun, ht, hr])⟩
        obtain ⟨run, hrun, hst⟩ := Option.map_eq_some_iff.mp hf
        exact absurd (hmiss run hrun) (by simp [hst])
      · intro run hown
        obtain ⟨_, -, hv⟩ := hI.transacting.run r _ _ hown
        cases hv with
        | reopened _ hc => exact absurd (ht.symm.trans hc) (by simp)
    · exact Or.inl ⟨_, (Table.get_put ..).trans (if_pos rfl)⟩
  · rcases hI.reopened h' r' hx' (by simpa [Function.update_of_ne hh] using ht') with ⟨run, hr⟩ | hun
    · exact Or.inl ⟨run, Pending.get_update_of_ne hu (fun e => hh (Sum.inr.inj e)) hr⟩
    · exact Or.inr hun

/-- What a commit does to the runs: it settles one, or leaves all of them no more settled than
they were. -/
theorem Transacting.unsettled_commit (hT : Transacting cfg W) {o : Party σ η} {w' : World σ η}
    (hc : CommitOf W o w') {r : RunId} (hun : W.world.Unsettled r)
    (ho : ∀ s run, o = .inl s → W.runs.get r ≠ some (.inl s, run)) : w'.Unsettled r := by
  cases hr : W.world.store.db.runs.get r with
  | none =>
    cases hr' : w'.store.db.runs.get r with
    | none => simp [World.Unsettled, World.runStatusOf, hr']
    | some run' =>
      rw [hc.db] at hr'
      obtain ⟨run, h⟩ := Session.get_of_committed.2 hr'
      exact absurd (hr.symm.trans h) (by simp)
  | some run =>
    obtain ⟨run', hr', hcase⟩ := hT.committed_run o hr
    rw [← hc.db] at hr'
    simp only [World.Unsettled, World.runStatusOf, hr, hr', Option.map_some, ne_eq,
      Option.some.injEq] at hun ⊢
    rcases hcase with ⟨rfl, -⟩ | ⟨hown, hv⟩
    · exact hun
    · cases hv with
      | reopened => exact ⟨by simp, by simp⟩
      | @settled s => exact absurd hown (ho s _ rfl)

/-- An item that is queued after a commit was queued before it, or a replay has queued it. -/
theorem Transacting.hasQueued_commit (hT : Transacting cfg W) {o : Party σ η} {w' : World σ η}
    (hc : CommitOf W o w') {r : RunId} (h : w'.HasQueued r) :
    W.world.HasQueued r ∨ ∃ h, o = .inr h ∧ W.world.replaysRun h = some r := by
  obtain ⟨i, row', hrow', hr, hst⟩ := h
  rw [hc.db] at hrow'
  obtain ⟨row, hrow⟩ := Session.get_of_committed.1 hrow'
  obtain ⟨row₁, hrow₁, hcase⟩ := hT.committed_item o hrow
  obtain rfl := Option.some.inj (hrow₁.symm.trans hrow')
  rcases hcase with ⟨rfl, -⟩ | ⟨hown, -, rfl⟩
  · exact Or.inl ⟨i, _, hrow, hr, hst⟩
  · obtain ⟨h, r₀, _, ho, hx, -⟩ := hT.item i _ _ hown
    have hrun := hT.sane.replaying h _ i r₀ hx rfl
    simp only [World.runOf, hrow, Option.map_some, Option.some.injEq] at hrun
    exact Or.inr ⟨h, ho, replaysRun_iff.mpr ⟨i, hx.trans (by rw [← hrun, ← hr])⟩⟩

theorem Kept.replayed (hI : Kept cfg W) {h : η} {rid : ItemId} {r : RunId}
    (hs : stmt cfg W (.replay h) = some W')
    (hx : W.world.handlers h = some (.replayCommit rid r)) (ht : W.replays h = some .commit)
    (hW : W' = { W with
      world := { W.world with
        store := { W.world.store with db := W.committed (.inr h) } }.setHandler h
          (some (.replayEnqueue rid)) }.close (.inr h))
    (hok : Apart cfg W (.replay h)) : Kept cfg W' := by
  have hT := hI.transacting
  have hc := commitOf_replay hx
  have hkeep : ∀ {r'}, W.world.Unsettled r' → W'.world.Unsettled r' := by
    subst hW
    exact fun hun => hT.unsettled_commit hc hun (by simp)
  have hopen : ∀ {r'}, W.world.replaysRun h = some r' → W'.world.Unsettled r' := by
    intro r' hr'
    rcases hI.reopened h r' hr' ht with ⟨run', hown⟩ | hun
    · obtain ⟨run, hrun, hv⟩ := hT.run r' _ _ hown
      obtain ⟨run₁, hrun₁, ⟨-, hno⟩ | ⟨-, hv₁⟩⟩ := hT.committed_run (.inr h) hrun
      · exact absurd hown (hno run')
      · subst hW
        cases hv₁ with
        | reopened => simp [World.Unsettled, World.runStatusOf, Session.close, hrun₁]
    · exact hkeep hun
  have hqueued : ∀ {r'}, W'.world.HasQueued r' →
      W.world.HasQueued r' ∨ W.world.replaysRun h = some r' := by
    subst hW
    intro r' hq
    refine (hT.hasQueued_commit hc hq).imp id ?_
    rintro ⟨h', ho, hr'⟩
    obtain rfl := Sum.inr.inj ho
    exact hr'
  exact
  { transacting := transacting_stmt hT hs
    queued := by
      intro r' hq
      rcases hqueued hq with hq | hr'
      · exact hkeep (hI.queued r' hq)
      · exact hopen hr'
    counted := by
      intro r' ho hq
      have ho : OpenCheck W r' := by
        subst hW
        obtain ⟨s, hs', ht'⟩ := ho
        exact ⟨s, hs', by simpa [Session.close] using ht'⟩
      rcases hqueued hq with hq | hr'
      · exact hI.counted r' ho hq
      · exact hok.commits r' (by simp [replayingRun, ht, hr']) ho
    reopened := by
      intro h' r' hx' ht'
      have hne : h' ≠ h := by
        rintro rfl
        subst hW
        simp [Session.close] at ht'
      have hold : W.world.replaysRun h' = some r' ∧ W.replays h' = some .commit := by
        subst hW
        exact ⟨by simpa [World.replaysRun, Session.close, Function.update_of_ne hne] using hx',
          by simpa [Session.close, Ne.symm hne] using ht'⟩
      rcases hI.reopened h' r' hold.1 hold.2 with ⟨run, hown⟩ | hun
      · subst hW
        exact Or.inl ⟨run, Pending.get_release.mpr ⟨hown, fun e => hne (Sum.inr.inj e)⟩⟩
      · exact Or.inr (hkeep hun) }

theorem Kept.checked (hI : Kept cfg W) {s : σ} {now : Timestamp} {rid : ItemId} {v : Loaded}
    {ret : Return} (hs : stmt cfg W (.check s now) = some W')
    (he : W.world.workers s = some ⟨rid, .at v (.maybeComplete ret)⟩)
    (ht : W.checks s = some .commit)
    (hW : W' = { W with
      world := W.world.afterExec s rid { W.world.store with db := W.committed (.inl s) }
        (.done ret) }.close (.inl s))
    (hok : Apart cfg W (.check s now)) : Kept cfg W' := by
  have hT := hI.transacting
  have hc : CommitOf W (.inl s) W'.world := by
    subst hW
    exact commitOf_check
  -- the run that the check settles is the one it has counted for
  have hsettles : ∀ {r run}, W.runs.get r = some (.inl s, run) →
      OpenCheck W r ∧ settling (W, .check s now) = some r := by
    intro r run hown
    obtain ⟨_, -, hv⟩ := hT.run r _ _ hown
    cases hv with
    | settled he' hr =>
      have hcheck := checksRun_iff.mpr ⟨_, _, _, he', hr⟩
      exact ⟨⟨s, hcheck, by simp [ht]⟩,
        by simp [settling, ht, hcheck, Pending.own_eq_some.mpr hown]⟩
  have hqueued : ∀ {r}, W'.world.HasQueued r → W.world.HasQueued r := by
    intro r hq
    rcases hT.hasQueued_commit hc hq with hq | ⟨_, ho, -⟩
    · exact hq
    · exact absurd ho (by simp)
  exact
  { transacting := transacting_stmt hT hs
    queued := by
      intro r hq
      have hq := hqueued hq
      refine hT.unsettled_commit hc (hI.queued r hq) fun s' run ho hown => ?_
      obtain rfl := Sum.inl.inj ho
      exact hI.counted r (hsettles hown).1 hq
    counted := by
      intro r ho hq
      refine hI.counted r ?_ (hqueued hq)
      subst hW
      obtain ⟨s', hs', ht'⟩ := ho
      have hne : s' ≠ s := by
        rintro rfl
        simp [Session.close] at ht'
      exact ⟨s', by simpa [World.checksRun, Session.close, Function.update_of_ne hne] using hs',
        by simpa [Session.close, Ne.symm hne] using ht'⟩
    reopened := by
      intro h r hx ht'
      have hold : W.world.replaysRun h = some r ∧ W.replays h = some .commit := by
        subst hW
        exact ⟨hx, by simpa [Session.close] using ht'⟩
      rcases hI.reopened h r hold.1 hold.2 with ⟨run, hown⟩ | hun
      · subst hW
        exact Or.inl ⟨run, Pending.get_release.mpr ⟨hown, by simp⟩⟩
      · refine Or.inr (hT.unsettled_commit hc hun fun s' run ho hown => ?_)
        obtain rfl := Sum.inl.inj ho
        exact hok.settles r (hsettles hown).2 ⟨h, hold⟩ }

theorem kept_stmt (hI : Kept cfg W) {l : Stmt σ η} (hok : Apart cfg W l)
    (hs : stmt cfg W l = some W') : Kept cfg W' := by
  cases stmt_cases hs with
  | whole hstep hl _ hW => exact hI.whole hs hstep hl hW hok
  | @requeue h rid r items hx ht hu hW =>
    subst hW
    refine hI.quiet hs rfl (fun r ho => Or.inl ho) fun h' r' hx' ht' => ?_
    have hne : h' ≠ h := by
      rintro rfl
      simp at ht'
    exact hI.reopened h' r' hx' (by simpa [Function.update_of_ne hne] using ht')
  | reopen hx ht hu hW =>
    subst hW
    exact hI.quiet hs rfl (fun r ho => Or.inl ho)
      fun _ _ hx' ht' => hI.reopen hx ht hu hok hx' ht'
  | replayed hx ht hW => exact hI.replayed hs hx ht hW hok
  | counted he ht hrem hW =>
    subst hW
    refine hI.quiet hs rfl (fun r ho => ho.of_update.imp id fun hr => ?_) hI.reopened
    simp only [World.checksRun, he, Option.bind_some, Phase.completionCheck,
      Option.some.injEq] at hr
    exact hr ▸ hrem
  | @counting s now rid v ret he ht hrem hW =>
    subst hW
    refine hI.quiet hs rfl (fun r ho => Or.inl ?_) hI.reopened
    obtain ⟨s', hs', ht'⟩ := ho
    have hne : s' ≠ s := by
      rintro rfl
      exact ht' ht
    exact ⟨s', by simpa [World.checksRun, Function.update_of_ne hne] using hs', ht'⟩
  | @failing s now rid v ret runs he ht hu hW | @completing s now rid v ret runs he ht hu hW =>
    subst hW
    refine hI.quiet hs rfl (fun r ho => Or.inl ?_) fun h r hx ht' => ?_
    · rcases ho.of_update with ho | hr
      · exact ho
      · exact ⟨s, hr, by simp [ht]⟩
    · rcases hI.reopened h r hx ht' with ⟨run, hown⟩ | hun
      · exact Or.inl ⟨run, Pending.get_update_of_ne hu (by simp) hown⟩
      · exact Or.inr hun
  | checked he ht hW => exact hI.checked hs he ht hW hok

/-! ## 5. Accepted replays are executed -/

theorem kept_of_run {tr : List (Session σ η × Stmt σ η)} (h : Run (stmt cfg) Session.init tr W)
    (hok : Along (Apart cfg) tr) : Kept cfg W :=
  h.invariant (fun _ _ _ hI hok hs => kept_stmt hI hok hs) hok kept_init

/-- **A replay is not swallowed.**  In a run whose statements keep replays and completion checks
apart, the run of an item that is queued is never failed or completed, and so no execution that
reads the item then gives it up with `eval run aborted`. -/
theorem replay_not_swallowed {tr : List (Session σ η × Stmt σ η)}
    (h : Run (stmt cfg) Session.init tr W) (hok : Along (Apart cfg) tr) {i : ItemId}
    (hq : W.world.statusOf i = some .queued) :
    (∀ r, W.world.runOf i = some r →
      W.world.runStatusOf r ≠ some .failed ∧ W.world.runStatusOf r ≠ some .completed) ∧
    ∀ v, startRunItem cfg i W.world.store.db ≠ .goto (.at v .skipAborted) := by
  obtain ⟨row, hrow, hst⟩ := Option.map_eq_some_iff.mp hq
  have hun := (kept_of_run h hok).queued row.evalRunId ⟨i, row, hrow, rfl, hst⟩
  constructor
  · intro r hr
    obtain rfl : row.evalRunId = r := by simpa [World.runOf, hrow] using hr
    exact hun
  · intro v hgo
    obtain ⟨row₁, _, _, run, pc', hrow₁, -, -, hrun, hph, hcase⟩ := startRunItem_goto hgo
    obtain rfl := Option.some.inj (hrow.symm.trans hrow₁)
    obtain ⟨-, rfl⟩ := Phase.at.inj hph
    rcases hcase with ⟨h, -⟩ | ⟨-, hf⟩ | ⟨h, -⟩
    · exact absurd h (by simp)
    · exact hun.1 (by simp [World.runStatusOf, hrun, hf])
    · simp only [nextAttempt] at h
      split at h <;> exact absurd h (by simp)

/-- Two items become dead letters.  The second one's execution is about to count. -/
def twoDeadLetters : List (Stmt (Fin 2) (Fin 1)) :=
  (launch 0 2 ++ [.deliver 0 0] ++ execs 0 declines 5 : List (Label (Fin 2) (Fin 1))).map .whole ++
    [.check 0 0] ++
    ([.deliver 1 1] ++ execs 1 declines 5 : List (Label (Fin 2) (Fin 1))).map .whole

/-- The completion check is over before the replay begins. -/
theorem replay_not_swallowed_small : ∃ (tr : List (Session (Fin 2) (Fin 1) × Stmt (Fin 2) (Fin 1)))
    (W : Session (Fin 2) (Fin 1)),
    Run (stmt (smallConfig 2 1 5000000)) Session.init tr W ∧ W.world.statusOf 0 = some .queued ∧
      ∀ r, W.world.runOf 0 = some r →
        W.world.runStatusOf r ≠ some .failed ∧ W.world.runStatusOf r ≠ some .completed := by
  obtain ⟨tr, W, hrun, hok, htest⟩ := exists_run_of_play
    (stmt (smallConfig 2 1 5000000)) (Session.init : Session (Fin 2) (Fin 1))
    (fun W l => decide (Apart (smallConfig 2 1 5000000) W l))
    (twoDeadLetters ++ List.replicate 4 (.check 1 0) ++
      [.whole (.replay 0 0), .whole (.handler 0 0)] ++ List.replicate 3 (.replay 0))
    (fun _ W => W.world.statusOf 0 == some .queued)
    (by decide)
  have hok : Along (Apart (smallConfig 2 1 5000000)) tr := hok.mono fun _ _ h => of_decide_eq_true h
  have hq : W.world.statusOf 0 = some .queued := by simpa using htest
  exact ⟨tr, W, hrun, hq, (replay_not_swallowed hrun hok hq).1⟩

/-- The check has counted zero, and updates the run behind the replay's update of it: the replay
leaves a queued item in a failed run. -/
theorem replay_swallowed : ¬ ∀ (tr : List (Session (Fin 2) (Fin 1) × Stmt (Fin 2) (Fin 1)))
    (W : Session (Fin 2) (Fin 1)), Run (stmt (smallConfig 2 1 5000000)) Session.init tr W →
    (∀ p ∈ tr, abortingRun (smallConfig 2 1 5000000) p = none) →
    (∀ s, W.checks s = none) → (∀ h, W.replays h = none) →
    ∀ i, W.world.statusOf i = some .queued →
      (∀ r, W.world.runOf i = some r →
        W.world.runStatusOf r ≠ some .failed ∧ W.world.runStatusOf r ≠ some .completed) ∧
      ∀ v, startRunItem (smallConfig 2 1 5000000) i W.world.store.db ≠ .goto (.at v .skipAborted) := by
  intro hall
  obtain ⟨tr, W, hrun, -, htest⟩ := exists_run_of_play
    (stmt (smallConfig 2 1 5000000)) (Session.init : Session (Fin 2) (Fin 1)) (fun _ _ => true)
    (twoDeadLetters ++ [.check 1 0, .whole (.replay 0 0), .whole (.handler 0 0)] ++
      List.replicate 3 (.replay 0) ++ List.replicate 3 (.check 1 0))
    (fun tr W => tr.all (fun p => abortingRun (smallConfig 2 1 5000000) p == none) &&
      decide (∀ s, W.checks s = none) && decide (∀ h, W.replays h = none) &&
      W.world.statusOf 0 == some .queued && W.world.runOf 0 == some 0 &&
      W.world.runStatusOf 0 == some .failed)
    (by decide)
  simp only [Bool.and_eq_true, List.all_eq_true, beq_iff_eq, decide_eq_true_eq] at htest
  obtain ⟨⟨⟨⟨⟨ha, hc⟩, hr⟩, hq⟩, hrun0⟩, hst⟩ := htest
  exact ((hall tr W hrun ha hc hr 0 hq).1 0 hrun0).1 hst

end EvalHarness
