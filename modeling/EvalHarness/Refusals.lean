/-
# Transactions the database refuses

`total_tokens` is an `Integer` column, like the two token counts of every item it sums up, and
`total_cost_usd` is a `Numeric(12,6)`, like the cost of every item; a `Text` column holds no U+0000.
Postgres refuses a value its column cannot hold: the transaction is rolled back, and the exception
ends the execution with the rows as they were.

The provider decides what four transactions of `execute_run_item` write: the finalising one (counts)
and the three that mark an item failed or dead-lettered (error texts).  `refusal` says when one of
them is refused, and `stepChecked` is the system in which that happens.  The commit of the grades can
be refused as well, but there the handler around grading takes over, so `step` has it already.

What has been proved of `step` is not lost.  A refused transaction leaves the worker and the rows
where a death of the worker would (`stepChecked_eq`), so what holds of every run of `step` holds of
every run of `stepChecked` (`checked_relabel`); and along a run whose transactions are all accepted
the two systems are the same (`checked_iff_of_accepted`).  In between lie the results that exclude
the death of a worker: these need the transactions to be accepted.

Left out: `attempt_count` is an `Integer` too, and would take 2^31 attempts of one item.
-/
import EvalHarness.Costs
import EvalHarness.Winner

namespace EvalHarness

open Lts (Run Along)

/-! ## 1. The columns -/

/-- A value of a `Numeric(12,6)` column: six digits before the point. -/
def FitsNumeric (x : MicroUsd) : Prop := |x| < 10 ^ 12

instance (x : MicroUsd) : Decidable (FitsNumeric x) := inferInstanceAs (Decidable (_ < _))

/-- What the numeric columns of a `run_item` row hold. -/
def RunItem.fits (row : RunItem) : Bool :=
  row.latencyMs.all (decide <| Int32 ·) && row.promptTokens.all (decide <| Int32 ·) &&
    row.completionTokens.all (decide <| Int32 ·) && row.costUsd.all (decide <| FitsNumeric ·)

/-- What the numeric columns of an `eval_run` row hold. -/
def EvalRun.fits (run : EvalRun) : Bool :=
  decide (FitsNumeric run.totalCostUsd) && decide (Int32 run.totalTokens)

/-- The rows the finalising transaction writes fit their columns, and `delta_tokens`, which is added
to an integer, is one. -/
def finaliseFits (db : Db) (rid : ItemId) (v : Loaded) (r : CompletionResult) : Bool :=
  let (db', updated) := finaliseRunItem db rid v r
  let deltaTokens := r.promptTokens + r.completionTokens - v.prevTokens
  !updated || ((db'.items.get rid).all RunItem.fits && decide (Int32 deltaTokens) &&
    (db'.runs.get v.evalRunId).all EvalRun.fits)

/-- The largest count there is, and one more token. -/
def brimful : Choice := ⟨.result ⟨"4", 2147483647, 1, 7⟩, .graded [] none, 0⟩

theorem fits_of_int32 {model : String} {p c : Int} (hp : Int32 p) (hc : Int32 c) :
    FitsNumeric (computeCost model p c) :=
  (abs_computeCost_le hp hc).trans_lt (by decide)

/-! ## 2. What is refused -/

/-- The text of the exception for a number. -/
def outOfRange : String := "value out of range"

/-- Why the database refuses what an execution is about to commit, if it does. -/
def refusal (m : Backend) (rid : ItemId) : Phase → Option String
  | .at v (.finalise r) => if finaliseFits m.db rid v r then none else some outOfRange
  | .at _ (.markNonRetryable e) => if storableText e then none else some notStorable
  | .at _ (.markDeadLettered e) => if storableText e then none else some notStorable
  | .at _ (.markGradingFailed e) =>
    if storableText (gradingError e) then none else some notStorable
  | _ => none

/-- One step of `execute_run_item`. -/
def executeChecked (cfg : Config) (c : Choice) (rid : ItemId) (m : Backend) (p : Phase) :
    Backend × Next :=
  match refusal m rid p with
  | some e => (m, .raised e)
  | none => executeRunItem cfg c rid m p

theorem storableText_append (a b : String) :
    storableText (a ++ b) = (storableText a && storableText b) := by
  rw [storableText, String.toList_append, List.all_append, storableText, storableText]

/-- The words around the error are always stored. -/
theorem storableText_gradingError (e : String) :
    storableText (gradingError e) = storableText e := by
  have hfront : storableText "grading pipeline failed: " = true := by decide
  have htext : gradingError e = "grading pipeline failed: " ++ e := rfl
  rw [htext, storableText_append, hfront, Bool.true_and]

theorem storableText_toString (n : Nat) : storableText (toString n) = true := by
  rw [storableText, List.all_eq_true]
  intro c hc
  have hdigits : (toString n).toList = Nat.toDigits 10 n := String.toList_ofList
  rw [hdigits] at hc
  have hdigit := Nat.isDigit_of_mem_toDigits (by decide) (by decide) hc
  have hle : '0'.toNat ≤ c.toNat := (Char.isDigit_iff_toNat.mp hdigit).1
  have hpos : 0 < c.toNat := lt_of_lt_of_le (by decide) hle
  exact bne_iff_ne.mpr (Nat.pos_iff_ne_zero.mp hpos)

/-- So are those around the last error of an exhausted loop. -/
theorem storableText_exhausted (n : Nat) (e : String) :
    storableText s!"exhausted {n} attempts: {e}" = storableText e := by
  have hfront : storableText "exhausted " = true := by decide
  have hmiddle : storableText " attempts: " = true := by decide
  have htext : s!"exhausted {n} attempts: {e}" =
      "exhausted " ++ toString n ++ " attempts: " ++ e := rfl
  simp only [htext, storableText_append, hfront, hmiddle, storableText_toString, Bool.true_and]

/-! ## 3. The system -/

section System

variable {σ η : Type} [DecidableEq σ] [DecidableEq η] {cfg : Config} {w w' : World σ η}
  {l : Label σ η}

/-- The transitions of the system. -/
def stepChecked (cfg : Config) (w : World σ η) : Label σ η → Option (World σ η)
  | .exec s c =>
    match w.workers s with
    | none => none
    | some e =>
      let (m, next) := executeChecked cfg c e.rid w.store e.phase
      some (w.afterExec s e.rid m next)
  | l => step cfg w l

/-- The database refuses nothing of what the step commits. -/
def Accepted (w : World σ η) (l : Label σ η) : Prop :=
  ∀ e ∈ w.mover l, refusal w.store e.rid e.phase = none

instance (w : World σ η) (l : Label σ η) : Decidable (Accepted w l) :=
  decidable_of_iff ((w.mover l).all fun e => refusal w.store e.rid e.phase == none) <| by
    simp [Accepted, Option.all_eq_true]

/-- The step of `step` that does the same: to be refused is to die. -/
def asDeath (w : World σ η) (l : Label σ η) : Label σ η :=
  match l with
  | .exec s c => if Accepted w (.exec s c) then .exec s c else .crash s
  | l => l

theorem asDeath_of_accepted {σ η : Type} {w : World σ η} {l : Label σ η} (h : Accepted w l) : asDeath w l = l := by
  cases l with
  | exec s c => exact if_pos h
  | _ => rfl

theorem executeChecked_of_none {c : Choice} {rid : ItemId} {m : Backend} {p : Phase}
    (h : refusal m rid p = none) : executeChecked cfg c rid m p = executeRunItem cfg c rid m p := by
  rw [executeChecked, h]

theorem executeChecked_of_some {c : Choice} {rid : ItemId} {m : Backend} {p : Phase} {e : String}
    (h : refusal m rid p = some e) : executeChecked cfg c rid m p = (m, .raised e) := by
  rw [executeChecked, h]

/-- **To be refused is to die.** -/
theorem stepChecked_eq (cfg : Config) (w : World σ η) (l : Label σ η) :
    stepChecked cfg w l = step cfg w (asDeath w l) := by
  cases l with
  | exec s c =>
    cases he : w.workers s with
    | none => simp [stepChecked, asDeath, Accepted, World.mover, step, he]
    | some e =>
      cases hr : refusal w.store e.rid e.phase with
      | none => simp [stepChecked, asDeath, Accepted, World.mover, step, he, executeChecked, hr]
      | some x =>
        simp [stepChecked, asDeath, Accepted, World.mover, step, he, executeChecked, hr,
          World.afterExec]
  | _ => rfl

theorem stepChecked_of_accepted (h : Accepted w l) : stepChecked cfg w l = step cfg w l := by
  rw [stepChecked_eq, asDeath_of_accepted h]

theorem asDeath_cases {σ η : Type} (w : World σ η) (l : Label σ η) :
    (Accepted w l ∧ asDeath w l = l) ∨ ∃ s c, l = .exec s c ∧ asDeath w l = .crash s := by
  by_cases h : Accepted w l
  · exact .inl ⟨h, asDeath_of_accepted h⟩
  · cases l with
    | exec s c => exact .inr ⟨s, c, rfl, if_neg h⟩
    | _ => exact absurd (fun _ he => by cases he) h

/-- Who is refused, and what. -/
theorem exists_refusal {σ η : Type} {w : World σ η} {l : Label σ η} (h : ¬ Accepted w l) :
    ∃ s c e x, l = .exec s c ∧ w.workers s = some e ∧ refusal w.store e.rid e.phase = some x := by
  simp only [Accepted, not_forall, Option.ne_none_iff_exists'] at h
  obtain ⟨e, he, x, hx⟩ := h
  cases l with
  | exec s c => exact ⟨s, c, e, x, rfl, he, hx⟩
  | _ => cases he

theorem refused_step {s : σ} {c : Choice} {e : Exec} {x : String} (he : w.workers s = some e)
    (hr : refusal w.store e.rid e.phase = some x) (hs : stepChecked cfg w (.exec s c) = some w') :
    w' = w.setWorker s none := by
  simp only [stepChecked, he, executeChecked, hr, World.afterExec] at hs
  exact (Option.some.inj hs).symm

/-- **What `step` cannot reach, refusals do not reach either.** -/
theorem checked_relabel {tr : List (World σ η × Label σ η)} (h : Run (stepChecked cfg) w tr w') :
    Run (step cfg) w (tr.map fun x => (x.1, asDeath x.1 x.2)) w' :=
  h.relabel (stepChecked_eq cfg)

/-- **Where nothing is refused the two systems are one.** -/
theorem checked_iff_of_accepted {tr : List (World σ η × Label σ η)} (hok : Along Accepted tr) :
    Run (stepChecked cfg) w tr w' ↔ Run (step cfg) w tr w' :=
  ⟨fun h => h.congr fun p hp => stepChecked_of_accepted (hok p hp),
    fun h => h.congr fun p hp => (stepChecked_of_accepted (hok p hp)).symm⟩

end System

/-! ## 4. An execution by itself

When nobody else moves, what an execution does depends on the backend it starts from and on what
its environment answers, and on nothing else of the world.  `aloneChecked` is that smaller system: a
backend and a place.  The runs of one worker slot are exactly its runs, so a result about an
undisturbed execution is proved here and holds of the whole system. -/

/-- The next step of an execution nobody disturbs. -/
def aloneChecked (cfg : Config) (rid : ItemId) : Backend × Next → Choice → Option (Backend × Next)
  | (m, .goto p), c => some (executeChecked cfg c rid m p)
  | (_, .done _), _ | (_, .raised _), _ => none

section Slot

variable {σ η : Type} [DecidableEq σ] [DecidableEq η] {cfg : Config}

theorem World.afterExec_self {σ η : Type} [DecidableEq σ] {w : World σ η} {s : σ} {rid : ItemId}
    {p : Phase} (h : w.workers s = some ⟨rid, p⟩) : w.afterExec s rid w.store (.goto p) = w := by
  simp only [World.afterExec, World.setWorker, ← h, Function.update_eq_self]

/-- What an execution leaves behind does not depend on where it stood. -/
theorem World.afterExec_afterExec {σ η : Type} [DecidableEq σ] (w : World σ η) (s : σ)
    (rid : ItemId) (m m' : Backend) (p : Phase) (n : Next) :
    (w.afterExec s rid m (.goto p)).afterExec s rid m' n = w.afterExec s rid m' n := by
  cases n <;> simp [World.afterExec, World.setWorker]

theorem stepChecked_afterExec (w : World σ η) (s : σ) (rid : ItemId) (x : Backend × Next)
    (c : Choice) :
    stepChecked cfg (w.afterExec s rid x.1 x.2) (.exec s c) =
      (aloneChecked cfg rid x c).map fun y => w.afterExec s rid y.1 y.2 := by
  obtain ⟨m, n⟩ := x
  cases n with
  | goto p =>
    have hat : (w.afterExec s rid m (.goto p)).workers s = some ⟨rid, p⟩ := by
      simp [World.afterExec, World.setWorker]
    simp only [stepChecked, hat, aloneChecked, Option.map_some, World.afterExec_afterExec]
    rfl
  | done ret => simp [stepChecked, aloneChecked, World.afterExec, World.setWorker]
  | raised e => simp [stepChecked, aloneChecked, World.afterExec, World.setWorker]

/-- **The runs of one slot are the runs of its execution.** -/
theorem exec_run_iff_checked {w w' : World σ η} {s : σ} {rid : ItemId} {p : Phase}
    {tr : List (World σ η × Label σ η)} (h : w.workers s = some ⟨rid, p⟩) :
    (Run (stepChecked cfg) w tr w' ∧ ∀ x ∈ tr, ∃ c, x.2 = .exec s c) ↔
      ∃ tr' y, Run (aloneChecked cfg rid) (w.store, .goto p) tr' y ∧
        w' = w.afterExec s rid y.1 y.2 ∧
        tr = tr'.map fun x => (w.afterExec s rid x.1.1 x.1.2, .exec s x.2) :=
  Run.iff_of_map (stepChecked_afterExec w s rid) <|
    show (fun y : Backend × Next => w.afterExec s rid y.1 y.2) (w.store, .goto p) = w from
      World.afterExec_self h

end Slot

end EvalHarness
