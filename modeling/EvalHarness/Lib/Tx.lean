/-
# Programs over a database session

A program works on its session's view of the database.  What it writes is seen by its own later
reads and by nobody else, until it commits; what is not committed when the session ends, because
the program raised or because it never asked for it, is gone.

A program that commits as its last step is all or nothing (`inSession_commit`): where it raises the
database is what it was, and where it returns everything it wrote is there.
-/
import Mathlib.Tactic.Common

namespace Tx

variable {σ ε α β : Type}

structure View (σ : Type) where
  committed : σ
  current : σ

/-- What a program has written when it raises is still in its view. -/
abbrev Program (σ ε α : Type) := ExceptT ε (StateM (View σ)) α

/-- Run a program from a view. -/
def exec (p : Program σ ε α) (v : View σ) : Except ε α × View σ := p.run.run v

def read : Program σ ε σ := do return (← get).current

def write (f : σ → σ) : Program σ ε Unit := modify fun v => { v with current := f v.current }

def commit : Program σ ε Unit := modify fun v => { v with committed := v.current }

/-- A computation that does not touch the database. -/
def lift (x : Except ε α) : Program σ ε α := ExceptT.mk (pure x)

/-- Run a program in a session of its own: the database afterwards, and what is returned or
raised. -/
def inSession (p : Program σ ε α) (db : σ) : σ × Except ε α :=
  ((exec p ⟨db, db⟩).2.committed, (exec p ⟨db, db⟩).1)

/-! ## 1. One step at a time -/

@[simp] theorem exec_pure (a : α) (v : View σ) :
    exec (pure a : Program σ ε α) v = (.ok a, v) := rfl

@[simp] theorem exec_read (v : View σ) : exec (read : Program σ ε σ) v = (.ok v.current, v) := rfl

@[simp] theorem exec_write (f : σ → σ) (v : View σ) :
    exec (write f : Program σ ε Unit) v = (.ok (), { v with current := f v.current }) := rfl

@[simp] theorem exec_commit (v : View σ) :
    exec (commit : Program σ ε Unit) v = (.ok (), { v with committed := v.current }) := rfl

@[simp] theorem exec_lift (x : Except ε α) (v : View σ) :
    exec (lift x : Program σ ε α) v = (x, v) := rfl

@[simp] theorem exec_bind (p : Program σ ε α) (f : α → Program σ ε β) (v : View σ) :
    exec (p >>= f) v =
      match exec p v with
      | (.ok a, v') => exec (f a) v'
      | (.error e, v') => (.error e, v') := by
  change exec (ExceptT.mk (p.run >>= ExceptT.bindCont f)) v = _
  unfold exec
  simp only [ExceptT.run_mk, StateT.run_bind]
  rcases StateT.run p.run v with ⟨r, v'⟩
  cases r <;> rfl

@[simp] theorem exec_map (f : α → β) (p : Program σ ε α) (v : View σ) :
    exec (f <$> p) v =
      match exec p v with
      | (.ok a, v') => (.ok (f a), v')
      | (.error e, v') => (.error e, v') := by
  rw [← bind_pure_comp, exec_bind]
  rcases exec p v with ⟨r, v'⟩
  cases r <;> rfl

/-! ## 2. Committing last -/

/-- The program never commits. -/
def Uncommitted (p : Program σ ε α) : Prop := ∀ v, (exec p v).2.committed = v.committed

theorem uncommitted_pure (a : α) : Uncommitted (pure a : Program σ ε α) := fun _ => rfl

theorem uncommitted_read : Uncommitted (read : Program σ ε σ) := fun _ => rfl

theorem uncommitted_write (f : σ → σ) : Uncommitted (write f : Program σ ε Unit) := fun _ => rfl

theorem uncommitted_lift (x : Except ε α) : Uncommitted (lift x : Program σ ε α) := fun _ => rfl

theorem Uncommitted.bind {p : Program σ ε α} {f : α → Program σ ε β} (hp : Uncommitted p)
    (hf : ∀ a, Uncommitted (f a)) : Uncommitted (p >>= f) := by
  intro v
  have hv := hp v
  rw [exec_bind]
  split
  · rename_i a v' h
    rw [hf a v', ← hv, h]
  · rename_i e v' h
    rw [← hv, h]

/-- **All or nothing.**  A program that commits once, as its last step. -/
theorem inSession_commit {p : Program σ ε α} (hp : Uncommitted p) (db : σ) :
    inSession (do let a ← p; commit; return a) db =
      match exec p ⟨db, db⟩ with
      | (.ok a, v) => (v.current, .ok a)
      | (.error e, _) => (db, .error e) := by
  have hdb := hp ⟨db, db⟩
  unfold inSession
  simp only [exec_bind]
  cases h : exec p ⟨db, db⟩ with
  | mk r v =>
    rw [h] at hdb
    cases r with
    | error e => exact Prod.ext hdb rfl
    | ok a => rfl

end Tx
