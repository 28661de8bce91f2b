/-
# The system: workers, requests, database and broker

`World` is what all parties share together with where each of them stands.  Worker slots (`σ`)
and request slots (`η`) are type parameters: a slot carries one execution, or one request, at a
time and is then free for the next, so an infinite type models any number of them and
`Fin K` models `K` workers.

A `Label` says who moves.  Everything is permitted here: a message ever published may be
delivered again (`redeliver`), a worker may die between any two steps (`crash`, which also
stands for an exception that ends the execution: a transaction the database refuses, a publication
the broker refuses) and so may a request (`drop`, which also stands for a publication the broker
refuses).  Which transactions the database refuses is said in `Refusals`, whose `stepChecked` ends
the execution by itself.  A result about a better-behaved broker restricts the labels of its runs.
-/
import EvalHarness.Lib.Runs
import EvalHarness.Api

namespace EvalHarness

/-- An execution of `execute_run_item`: its argument and where it stands. -/
structure Exec where
  rid : ItemId
  phase : Phase
  deriving DecidableEq

structure World (σ η : Type) where
  store : Backend
  workers : σ → Option Exec
  handlers : η → Option Handler
  /-- What finished executions returned (the Celery result backend), latest first. -/
  results : List (ItemId × Return)

inductive Label (σ η : Type)
  /-- `POST /v1/eval-runs` up to its commit. -/
  | create (h : η) (payload : EvalRunCreate) (r : RunId) (itemIds : List ItemId) (now : Timestamp)
  /-- `POST /v1/eval-runs/{r}/cancel`: the read. -/
  | cancel (h : η) (r : RunId)
  /-- `POST /v1/dead-letters/{rid}/replay`: the read of the item. -/
  | replay (h : η) (rid : ItemId)
  /-- The next step of a request. -/
  | handler (h : η) (now : Timestamp)
  /-- A request ends without its next step. -/
  | drop (h : η)
  /-- A worker takes a message off the queue. -/
  | deliver (s : σ) (rid : ItemId)
  /-- A worker is given a message that was published before, once more. -/
  | redeliver (s : σ) (rid : ItemId)
  /-- The next step of an execution. -/
  | exec (s : σ) (c : Choice)
  /-- A worker dies, or an exception ends the execution: a transaction or a publication is refused. -/
  | crash (s : σ)

variable {σ η : Type} [DecidableEq σ] [DecidableEq η]

/-- The empty database, an empty queue and nobody at work. -/
def World.init : World σ η :=
  ⟨⟨Db.empty, fun _ => none, [], [], []⟩, fun _ => none, fun _ => none, []⟩

def World.setWorker (w : World σ η) (s : σ) (e : Option Exec) : World σ η :=
  { w with workers := Function.update w.workers s e }

def World.setHandler (w : World σ η) (h : η) (x : Option Handler) : World σ η :=
  { w with handlers := Function.update w.handlers h x }

/-- The world after an execution's step. -/
def World.afterExec (w : World σ η) (s : σ) (rid : ItemId) (m : Backend) : Next → World σ η
  | .goto p => { w with store := m }.setWorker s (some ⟨rid, p⟩)
  | .done ret => { w with store := m, results := (rid, ret) :: w.results }.setWorker s none
  | .raised _ => { w with store := m }.setWorker s none

/-- The transitions of the system. -/
def step (cfg : Config) (w : World σ η) : Label σ η → Option (World σ η)
  | .create h payload r itemIds now =>
    if w.handlers h ≠ none then none
    else
      match fanOut cfg.catalog payload with
      | .error _ => some w
      | .ok pairs =>
        match insertRun w.store.db payload pairs r itemIds now with
        | none => some w
        | some db =>
          some ({ w with store := { w.store with db } }.setHandler h
            (if itemIds = [] then none else some (.createEnqueue itemIds)))
  | .cancel h r =>
    if w.handlers h ≠ none then none
    else
      match cancelRead w.store.db r with
      | .ok true => some (w.setHandler h (some (.cancelCommit r)))
      | _ => some w
  | .replay h rid =>
    if w.handlers h ≠ none then none
    else
      match replayReadItem w.store.db rid with
      | .ok r => some (w.setHandler h (some (.replayReadRun rid r)))
      | .error _ => some w
  | .handler h now =>
    match w.handlers h with
    | none => none
    | some x =>
      let (m, x') := stepHandler w.store now x
      some ({ w with store := m }.setHandler h x')
  | .drop h => if w.handlers h = none then none else some (w.setHandler h none)
  | .deliver s rid =>
    if w.workers s = none ∧ rid ∈ w.store.queue then
      some ({ w with store := { w.store with queue := w.store.queue.erase rid } }.setWorker s
        (some ⟨rid, .start⟩))
    else none
  | .redeliver s rid =>
    if w.workers s = none ∧ rid ∈ w.store.sent then some (w.setWorker s (some ⟨rid, .start⟩))
    else none
  | .exec s c =>
    match w.workers s with
    | none => none
    | some e =>
      let (m, next) := executeRunItem cfg c e.rid w.store e.phase
      some (w.afterExec s e.rid m next)
  | .crash s => if w.workers s = none then none else some (w.setWorker s none)

/-! ## A small installation

One task set of `n` like tasks and one endpoint: enough to replay a schedule on. -/

def smallConfig (n maxAttempts : Nat) (limit : MicroUsd) : Config where
  retry := ⟨maxAttempts⟩
  spendLimit := ⟨limit, "10.00"⟩
  catalog :=
    { taskSets := [0]
      tasks := ⟨(List.range n).map fun t => (t, ⟨0, "2 + 2?", "arithmetic", some "4", .exactMatch, none⟩),
        by simp [Function.comp_def, List.nodup_range]⟩
      endpoints := ⟨[(0, ⟨"main", "gpt-4o", "1", none⟩)], by simp⟩ }

def smallRequest : EvalRunCreate := ⟨0, [0], by simp⟩

/-- The provider answers, for 1.25 USD, and the graders have nothing to say. -/
def answers : Choice := ⟨.result ⟨"4", 100000, 100000, 7⟩, .graded [] none, 0⟩

/-- The provider is overloaded. -/
def declines : Choice := ⟨.retryable "overloaded", .graded [] none, 0⟩

/-- A slot takes `n` steps. -/
def execs (s : σ) (c : Choice) (n : Nat) : List (Label σ η) := List.replicate n (.exec s c)

/-- Run 0 is created with the items `0 .. n - 1`, and their messages are published. -/
def launch (h : η) (n : Nat) : List (Label σ η) :=
  .create h smallRequest 0 (List.range n) 0 :: List.replicate n (.handler h 0)

end EvalHarness
