/-
# Two transactions, statement by statement

In `System` a transaction is one step.  Two of them read or write in several statements that
another transaction's can come between: `_maybe_complete_run` counts, and updates the run by
what it counted; `replay_run_item` updates the item, and then the run.  Here these two are taken
apart.  Every statement is a step; it sees what is committed, and what its own transaction has
written, and an updated row is held until its transaction commits or is rolled back.  All other
transactions are still one step, which cannot change a row somebody holds.

`stmts_of_step` is the link to `System`: a transition there is what happens here when nothing
comes between the statements.
-/
import EvalHarness.Lib.Locks
import EvalHarness.WellFormed

namespace EvalHarness

open Lts

/-! ## 1. Open transactions -/

/-- The next statement of `replay_run_item`, behind its first update. -/
inductive ReplayStmt
  | updateRun | commit
  deriving DecidableEq, Repr

/-- The next statement of `_maybe_complete_run`, behind a count of zero. -/
inductive CheckStmt
  | updateFailed | updateCompleted | commit
  deriving DecidableEq, Repr

/-- Who runs a transaction: an execution or a request. -/
abbrev Party (σ η : Type) := σ ⊕ η

/-- The committed state of the system, and the open transactions: the versions they have written
and where they stand. -/
structure Session (σ η : Type) where
  world : World σ η
  items : Pending (Party σ η) ItemId RunItem
  runs : Pending (Party σ η) RunId EvalRun
  replays : η → Option ReplayStmt
  checks : σ → Option CheckStmt

inductive Stmt (σ η : Type)
  /-- A transition that is not one of the two transactions. -/
  | whole (l : Label σ η)
  /-- The next statement of the request's `replay_run_item` transaction. -/
  | replay (h : η)
  /-- The next statement of the execution's `_maybe_complete_run` transaction. -/
  | check (s : σ) (now : Timestamp)

variable {σ η : Type} [DecidableEq σ] [DecidableEq η]

namespace Session

/-- A state without open transactions. -/
def between (w : World σ η) : Session σ η :=
  ⟨w, Table.empty, Table.empty, fun _ => none, fun _ => none⟩

def init : Session σ η := between World.init

/-- The committed database once the transaction of `o` has committed. -/
def committed (W : Session σ η) (o : Party σ η) : Db :=
  { W.world.store.db with
    items := W.items.commit W.world.store.db.items o
    runs := W.runs.commit W.world.store.db.runs o }

/-- The transaction of `o` is over. -/
def close (W : Session σ η) (o : Party σ η) : Session σ η :=
  { W with
    items := W.items.release o
    runs := W.runs.release o
    replays := fun h => if o = .inr h then none else W.replays h
    checks := fun s => if o = .inl s then none else W.checks s }

/-- What a party's end rolls back. -/
def rollback (W : Session σ η) : Label σ η → Session σ η
  | .crash s => W.close (.inl s)
  | .drop h => W.close (.inr h)
  | _ => W

/-- A transition to `w` changes no held row. -/
def spares (W : Session σ η) (w : World σ η) : Bool :=
  W.items.spares W.world.store.db.items w.store.db.items &&
    W.runs.spares W.world.store.db.runs w.store.db.runs

end Session

/-! ## 2. The statements -/

/-- The transition is one of the two transactions that are taken apart. -/
def World.splits (w : World σ η) : Label σ η → Bool
  | .handler h _ =>
    match w.handlers h with
    | some (.replayCommit _ _) => true
    | _ => false
  | .exec s _ =>
    match w.workers s with
    | some ⟨_, .at _ (.maybeComplete _)⟩ => true
    | _ => false
  | _ => false

/-- The statements of `replay_run_item`'s transaction.  Nobody looks at the row counts. -/
def replayStmt (W : Session σ η) (h : η) (rid : ItemId) (r : RunId) :
    Option ReplayStmt → Option (Session σ η)
  | none =>
    (W.items.update W.world.store.db.items (.inr h) rid (fun row => row.status == .deadLettered)
      fun row => { row with status := .queued, error := none }).map fun items =>
        { W with items, replays := Function.update W.replays h (some .updateRun) }
  | some .updateRun =>
    (W.runs.update W.world.store.db.runs (.inr h) r (fun run => run.status == .failed)
      fun run => { run with status := .running, completedAt := none, error := none }).map fun runs =>
        { W with runs, replays := Function.update W.replays h (some .commit) }
  | some .commit =>
    let w := { W.world with store := { W.world.store with db := W.committed (.inr h) } }
    some ({ W with world := w.setHandler h (some (.replayEnqueue rid)) }.close (.inr h))

/-- The statements of `_maybe_complete_run`.  A count that is not zero ends the transaction. -/
def checkStmt (W : Session σ η) (s : σ) (rid : ItemId) (r : RunId) (ret : Return)
    (now : Timestamp) : Option CheckStmt → Option (Session σ η)
  | none =>
    if remaining W.world.store.db r = 0 then
      some { W with checks := Function.update W.checks s (some .updateFailed) }
    else some { W with world := W.world.afterExec s rid W.world.store (.done ret) }
  | some .updateFailed =>
    (W.runs.update W.world.store.db.runs (.inl s) r
      (fun run => run.status == .running && hasDeadLetter W.world.store.db r)
      fun run => { run with status := .failed, completedAt := some now }).map fun runs =>
        { W with runs, checks := Function.update W.checks s (some .updateCompleted) }
  | some .updateCompleted =>
    (W.runs.update W.world.store.db.runs (.inl s) r (fun run => run.status == .running)
      fun run => { run with status := .completed, completedAt := some now }).map fun runs =>
        { W with runs, checks := Function.update W.checks s (some .commit) }
  | some .commit =>
    let m := { W.world.store with db := W.committed (.inl s) }
    some ({ W with world := W.world.afterExec s rid m (.done ret) }.close (.inl s))

/-- The transitions of the system, one statement at a time. -/
def stmt (cfg : Config) (W : Session σ η) : Stmt σ η → Option (Session σ η)
  | .whole l =>
    if W.world.splits l then none
    else
      match step cfg W.world l with
      | none => none
      | some w => if W.spares w then some ({ W with world := w }.rollback l) else none
  | .replay h =>
    match W.world.handlers h with
    | some (.replayCommit rid r) => replayStmt W h rid r (W.replays h)
    | _ => none
  | .check s now =>
    match W.world.workers s with
    | some ⟨rid, .at v (.maybeComplete ret)⟩ =>
      checkStmt W s rid v.evalRunId ret now (W.checks s)
    | _ => none

/-! ## 3. What one statement can do -/

variable {cfg : Config} {W W' : Session σ η}

/-- What the statements of the three kinds do. -/
inductive StmtCase (cfg : Config) (W W' : Session σ η) : Stmt σ η → Prop
  | whole {l w} (hs : step cfg W.world l = some w) (hl : W.world.splits l = false)
      (hw : W.spares w = true) (hW : W' = { W with world := w }.rollback l) :
      StmtCase cfg W W' (.whole l)
  | requeue {h rid r items} (hx : W.world.handlers h = some (.replayCommit rid r))
      (ht : W.replays h = none)
      (hu : W.items.update W.world.store.db.items (.inr h) rid
        (fun row => row.status == .deadLettered)
        (fun row => { row with status := .queued, error := none }) = some items)
      (hW : W' = { W with items, replays := Function.update W.replays h (some .updateRun) }) :
      StmtCase cfg W W' (.replay h)
  | reopen {h rid r runs} (hx : W.world.handlers h = some (.replayCommit rid r))
      (ht : W.replays h = some .updateRun)
      (hu : W.runs.update W.world.store.db.runs (.inr h) r (fun run => run.status == .failed)
        (fun run => { run with status := .running, completedAt := none, error := none }) =
          some runs)
      (hW : W' = { W with runs, replays := Function.update W.replays h (some .commit) }) :
      StmtCase cfg W W' (.replay h)
  | replayed {h rid r} (hx : W.world.handlers h = some (.replayCommit rid r))
      (ht : W.replays h = some .commit)
      (hW : W' = { W with
        world := { W.world with
          store := { W.world.store with db := W.committed (.inr h) } }.setHandler h
            (some (.replayEnqueue rid)) }.close (.inr h)) :
      StmtCase cfg W W' (.replay h)
  | counted {s now rid v ret} (he : W.world.workers s = some ⟨rid, .at v (.maybeComplete ret)⟩)
      (ht : W.checks s = none) (hrem : remaining W.world.store.db v.evalRunId = 0)
      (hW : W' = { W with checks := Function.update W.checks s (some .updateFailed) }) :
      StmtCase cfg W W' (.check s now)
  | counting {s now rid v ret} (he : W.world.workers s = some ⟨rid, .at v (.maybeComplete ret)⟩)
      (ht : W.checks s = none) (hrem : remaining W.world.store.db v.evalRunId ≠ 0)
      (hW : W' = { W with world := W.world.afterExec s rid W.world.store (.done ret) }) :
      StmtCase cfg W W' (.check s now)
  | failing {s now rid v ret runs}
      (he : W.world.workers s = some ⟨rid, .at v (.maybeComplete ret)⟩)
      (ht : W.checks s = some .updateFailed)
      (hu : W.runs.update W.world.store.db.runs (.inl s) v.evalRunId
        (fun run => run.status == .running && hasDeadLetter W.world.store.db v.evalRunId)
        (fun run => { run with status := .failed, completedAt := some now }) = some runs)
      (hW : W' = { W with runs, checks := Function.update W.checks s (some .updateCompleted) }) :
      StmtCase cfg W W' (.check s now)
  | completing {s now rid v ret runs}
      (he : W.world.workers s = some ⟨rid, .at v (.maybeComplete ret)⟩)
      (ht : W.checks s = some .updateCompleted)
      (hu : W.runs.update W.world.store.db.runs (.inl s) v.evalRunId
        (fun run => run.status == .running)
        (fun run => { run with status := .completed, completedAt := some now }) = some runs)
      (hW : W' = { W with runs, checks := Function.update W.checks s (some .commit) }) :
      StmtCase cfg W W' (.check s now)
  | checked {s now rid v ret} (he : W.world.workers s = some ⟨rid, .at v (.maybeComplete ret)⟩)
      (ht : W.checks s = some .commit)
      (hW : W' = { W with
        world := W.world.afterExec s rid { W.world.store with db := W.committed (.inl s) }
          (.done ret) }.close (.inl s)) :
      StmtCase cfg W W' (.check s now)

theorem stmt_cases {l : Stmt σ η} (hs : stmt cfg W l = some W') : StmtCase cfg W W' l := by
  cases l with
  | whole l =>
    simp only [stmt] at hs
    split at hs
    · exact absurd hs (by simp)
    · rename_i hsplit
      split at hs
      · exact absurd hs (by simp)
      · rename_i w hstep
        split at hs
        · rename_i hspare
          exact .whole hstep (by simpa using hsplit) hspare (Option.some.inj hs).symm
        · exact absurd hs (by simp)
  | replay h =>
    simp only [stmt] at hs
    split at hs
    · rename_i rid r hx
      cases ht : W.replays h with
      | none =>
        simp only [ht, replayStmt, Option.map_eq_some_iff] at hs
        obtain ⟨items, hu, rfl⟩ := hs
        exact .requeue hx ht hu rfl
      | some t =>
        cases t with
        | updateRun =>
          simp only [ht, replayStmt, Option.map_eq_some_iff] at hs
          obtain ⟨runs, hu, rfl⟩ := hs
          exact .reopen hx ht hu rfl
        | commit =>
          simp only [ht, replayStmt, Option.some.injEq] at hs
          exact .replayed hx ht hs.symm
    · exact absurd hs (by simp)
  | check s now =>
    simp only [stmt] at hs
    split at hs
    · rename_i rid v ret he
      cases ht : W.checks s with
      | none =>
        simp only [ht, checkStmt] at hs
        split at hs
        · rename_i hrem
          exact .counted he ht hrem (Option.some.inj hs).symm
        · rename_i hrem
          exact .counting he ht hrem (Option.some.inj hs).symm
      | some t =>
        cases t with
        | updateFailed =>
          simp only [ht, checkStmt, Option.map_eq_some_iff] at hs
          obtain ⟨runs, hu, rfl⟩ := hs
          exact .failing he ht hu rfl
        | updateCompleted =>
          simp only [ht, checkStmt, Option.map_eq_some_iff] at hs
          obtain ⟨runs, hu, rfl⟩ := hs
          exact .completing he ht hu rfl
        | commit =>
          simp only [ht, checkStmt, Option.some.injEq] at hs
          exact .checked he ht hs.symm
    · exact absurd hs (by simp)

/-! ## 4. Transactions that nobody interrupts -/

theorem Session.rollback_between {w : World σ η} (l : Label σ η) :
    (Session.between w).rollback l = Session.between w := by
  cases l with
  | crash s | drop h =>
    simp only [rollback, close, between, Pending.release_empty, ite_self]
  | _ => rfl

/-- The statements of a replay's transaction, one after the other, are the transaction. -/
theorem stmts_of_replay {w : World σ η} {h : η} {rid : ItemId} {r : RunId}
    (hx : w.handlers h = some (.replayCommit rid r)) :
    ∃ tr, Run (stmt cfg) (Session.between w) tr (Session.between
      ({ w with store := { w.store with db := replayRunItem w.store.db rid r } }.setHandler h
        (some (.replayEnqueue rid)))) := by
  obtain ⟨items, hu, hc, hrel⟩ := Pending.update_alone w.store.db.items (.inr h : Party σ η) rid
    (fun row => row.status == .deadLettered)
    (fun row => { row with status := .queued, error := none })
  obtain ⟨runs, hu', hc', hrel'⟩ := Pending.update_alone w.store.db.runs (.inr h : Party σ η) r
    (fun run => run.status == .failed)
    (fun run => { run with status := .running, completedAt := none, error := none })
  let W₁ : Session σ η :=
    { Session.between w with
      items, replays := Function.update (fun _ => none) h (some .updateRun) }
  let W₂ : Session σ η := { W₁ with runs, replays := Function.update W₁.replays h (some .commit) }
  have h₁ : stmt cfg (Session.between w) (.replay h) = some W₁ := by
    simp only [stmt, Session.between, hx, replayStmt, hu, Option.map_some, W₁]
  have h₂ : stmt cfg W₁ (.replay h) = some W₂ := by
    simp only [stmt, Session.between, hx, replayStmt, hu', Option.map_some, W₁, W₂,
      Function.update_self]
  have h₃ : stmt cfg W₂ (.replay h) = some (Session.between
      ({ w with store := { w.store with db := replayRunItem w.store.db rid r } }.setHandler h
        (some (.replayEnqueue rid)))) := by
    simp only [stmt, Session.between, hx, replayStmt, W₁, W₂, Function.update_self,
      Session.committed, Session.close, hc, hc', hrel, hrel', Option.some.injEq]
    refine congrArg₂ (Session.mk _ _ _) (funext fun h' => ?_) (funext fun s => by simp)
    by_cases hh : h = h'
    · simp [hh]
    · simp [hh, Function.update_of_ne (Ne.symm hh)]
  exact ⟨_, Run.cons h₁ (Run.cons h₂ (Run.cons h₃ Run.nil))⟩

/-- The two updates of a completion check, with nothing in between. -/
theorem updates_of_check (db : Db) (o : Party σ η) (r : RunId) (now : Timestamp) :
    ∃ p q : Pending (Party σ η) RunId EvalRun,
      Pending.update Table.empty db.runs o r
        (fun run => run.status == .running && hasDeadLetter db r)
        (fun run => { run with status := .failed, completedAt := some now }) = some p ∧
      p.update db.runs o r (fun run => run.status == .running)
        (fun run => { run with status := .completed, completedAt := some now }) = some q ∧
      q.commit db.runs o = (completeIfRunning (failIfDeadLetter db r now) r now).runs ∧
      q.release o = Table.empty := by
  by_cases h : ∃ run, db.runs.get r = some run ∧
      (run.status == .running && hasDeadLetter db r) = true
  · -- the second update sees what the first one has written
    obtain ⟨run, hr, hg⟩ := h
    refine ⟨_, _, Pending.update_of_hit hr hg, Pending.update_of_miss ?_, ?_, Pending.release_put⟩
    · intro run' hsee
      simp only [Pending.sees, Pending.own, Table.get_put, if_true, Option.filter,
        decide_true, Option.map_some, Option.some_or, Option.some.injEq] at hsee
      rw [← hsee]
      rfl
    · have hmiss : ∀ run', (failIfDeadLetter db r now).runs.get r = some run' →
          (run'.status == .running) = false := by
        intro run' hrun'
        simp only [failIfDeadLetter, Db.updateRun_get, hr, hg, and_self, if_true, Option.map_some,
          Option.some.injEq] at hrun'
        rw [← hrun']
        rfl
      have hcommit := Pending.commit_of_hit (o := o)
        (g := fun run => run.status == .running && hasDeadLetter db r)
        (f := fun run => { run with status := .failed, completedAt := some now }) hr hg
      have hnoop : (completeIfRunning (failIfDeadLetter db r now) r now).runs =
          (failIfDeadLetter db r now).runs :=
        Table.updateWhere_of_miss
          (f := fun run : EvalRun => { run with status := .completed, completedAt := some now }) hmiss
      exact hcommit.trans hnoop.symm
  · have hmiss : ∀ run, db.runs.get r = some run →
        (run.status == .running && hasDeadLetter db r) = false := by
      intro run hr
      by_contra hg
      exact h ⟨run, hr, by simpa using hg⟩
    have hfail : failIfDeadLetter db r now = db := by
      simp only [failIfDeadLetter, Db.updateRun, Table.updateWhere_of_miss hmiss]
    obtain ⟨q, hu, hc, hrel⟩ := Pending.update_alone db.runs o r (fun run => run.status == .running)
      (fun run => { run with status := .completed, completedAt := some now })
    exact ⟨_, q, Pending.update_of_miss (by simpa [Pending.sees, Pending.own] using hmiss), hu,
      by rw [hfail]; exact hc, hrel⟩

theorem stmts_of_check {w : World σ η} {s : σ} {rid : ItemId} {v : Loaded} {ret : Return}
    (he : w.workers s = some ⟨rid, .at v (.maybeComplete ret)⟩) (now : Timestamp) :
    ∃ tr, Run (stmt cfg) (Session.between w) tr (Session.between
      (w.afterExec s rid { w.store with db := maybeCompleteRun w.store.db v.evalRunId now }
        (.done ret))) := by
  by_cases hrem : remaining w.store.db v.evalRunId = 0
  · obtain ⟨p, q, hu, hu', hc, hrel⟩ :=
      updates_of_check w.store.db (.inl s : Party σ η) v.evalRunId now
    let W₁ : Session σ η :=
      { Session.between w with checks := Function.update (fun _ => none) s (some .updateFailed) }
    let W₂ : Session σ η :=
      { W₁ with runs := p, checks := Function.update W₁.checks s (some .updateCompleted) }
    let W₃ : Session σ η :=
      { W₂ with runs := q, checks := Function.update W₂.checks s (some .commit) }
    have h₁ : stmt cfg (Session.between w) (.check s now) = some W₁ := by
      simp only [stmt, Session.between, he, checkStmt, hrem, if_true, W₁]
    have h₂ : stmt cfg W₁ (.check s now) = some W₂ := by
      simp only [stmt, Session.between, he, checkStmt, hu, Option.map_some, W₁, W₂,
        Function.update_self]
    have h₃ : stmt cfg W₂ (.check s now) = some W₃ := by
      simp only [stmt, Session.between, he, checkStmt, hu', Option.map_some, W₁, W₂, W₃,
        Function.update_self]
    have h₄ : stmt cfg W₃ (.check s now) = some (Session.between
        (w.afterExec s rid { w.store with db := maybeCompleteRun w.store.db v.evalRunId now }
          (.done ret))) := by
      simp only [stmt, Session.between, he, checkStmt, W₁, W₂, W₃, Function.update_self,
        Session.committed, Session.close, hc, hrel, Pending.commit_empty, Pending.release_empty,
        maybeCompleteRun, hrem, if_true, Option.some.injEq]
      refine congrArg₂ (Session.mk _ _ _) (funext fun h => by simp) (funext fun s' => ?_)
      by_cases hs : s = s'
      · simp [hs]
      · simp [hs, Function.update_of_ne (Ne.symm hs)]
    exact ⟨_, Run.cons h₁ (Run.cons h₂ (Run.cons h₃ (Run.cons h₄ Run.nil)))⟩
  · have h₁ : stmt cfg (Session.between w) (.check s now) = some (Session.between
        (w.afterExec s rid { w.store with db := maybeCompleteRun w.store.db v.evalRunId now }
          (.done ret))) := by
      simp [stmt, Session.between, he, checkStmt, hrem, maybeCompleteRun]
    exact ⟨_, Run.cons h₁ Run.nil⟩

/-- **Whole transitions**: a transition of the system is a run of statements that nobody
interrupts. -/
theorem stmts_of_step {w w' : World σ η} {l : Label σ η} (hs : step cfg w l = some w') :
    ∃ tr, Run (stmt cfg) (Session.between w) tr (Session.between w') := by
  by_cases hl : w.splits l = true
  · cases l with
    | handler h now =>
      obtain ⟨x, hx, rfl⟩ := step_handler_eq hs
      simp only [World.splits, hx] at hl
      split at hl
      · rename_i hx'
        obtain rfl := Option.some.inj hx'
        exact stmts_of_replay hx
      · exact absurd hl (by simp)
    | exec s c =>
      obtain ⟨⟨rid, p⟩, he, rfl⟩ := step_exec hs
      simp only [World.splits, he] at hl
      split at hl
      · rename_i he'
        obtain ⟨rfl, rfl⟩ := Exec.mk.inj (Option.some.inj he')
        exact stmts_of_check he c.now
      · exact absurd hl (by simp)
    | _ => exact absurd hl (by simp [World.splits])
  · have hstmt : stmt cfg (Session.between w) (.whole l) = some (Session.between w') := by
      simp only [stmt, show (Session.between w).world = w from rfl, hl, hs]
      have hspare : (Session.between w).spares w' = true := by
        simp [Session.spares, Session.between, Pending.spares, Table.keys, Table.empty]
      simp only [hspare, if_true]
      exact congrArg some (Session.rollback_between l)
    exact ⟨_, Run.cons hstmt Run.nil⟩

/-- Every state the system can reach is one it reaches statement by statement. -/
theorem stmts_of_run {tr : List (World σ η × Label σ η)} {w : World σ η}
    (h : Run (step cfg) World.init tr w) :
    ∃ tr', Run (stmt cfg) Session.init tr' (Session.between w) := by
  induction h with
  | nil => exact ⟨[], Run.nil⟩
  | snoc _ hs ih =>
    obtain ⟨tr₁, h₁⟩ := ih
    obtain ⟨tr₂, h₂⟩ := stmts_of_step hs
    exact ⟨tr₁ ++ tr₂, h₁.append h₂⟩

end EvalHarness
