/-
# How an execution ends (`execute_run_item`)

One execution of an executable item of a running run, with nobody else at work.  Its environment
is two scripts: what the provider answers to the n-th call, and what the graders may make of an
output.  `Ends` lists the five ways such an execution returns, `Cut` the four in which the database
refuses its last transaction, each with what is left behind, and `execution_ends` says that there are
no others; by `exec_run_iff_checked` the same holds of a slot of the whole system while nobody else
moves.

The retry loop has three exits, and its body and its head are different steps.  `Place` is the
invariant that carries the number of calls through them.
-/
import EvalHarness.Refusals
import EvalHarness.Routing

namespace EvalHarness

open Lts (Run Follows)

/-! ## 1. The scripts -/

def Completion.isRetryable : Completion → Bool
  | .retryable _ => true
  | .result _ | .nonRetryable _ => false

/-- Why grading has failed is a text the database stores. -/
def GradingOutcome.errorStored : GradingOutcome → Bool
  | .raises e => storableText e
  | .graded _ _ => true

/-- The first `n` outcomes are retryable errors. -/
def Declined (outcomes : Nat → Completion) (n : Nat) : Prop :=
  ∀ j, 1 ≤ j → j ≤ n → (outcomes j).isRetryable = true

/-- The `k`-th outcome is the first that is not a retryable error. -/
def IsFirst (outcomes : Nat → Completion) (k : Nat) : Prop :=
  1 ≤ k ∧ (outcomes k).isRetryable = false ∧ ∀ j, 1 ≤ j → j < k → (outcomes j).isRetryable = true

/-- The next step is a call of `provider.complete`. -/
def atCall (y : Backend × Next) : Bool :=
  match y.2 with
  | .goto (.at _ (.complete _)) => true
  | _ => false

/-- How often the provider was called. -/
def calls (tr : List ((Backend × Next) × Choice)) : Nat := tr.countP fun p => atCall p.1

/-- What the provider answered to the last call. -/
def lastAnswer (tr : List ((Backend × Next) × Choice)) : Option Completion :=
  (tr.filter fun p => atCall p.1).getLast?.map fun p => p.2.completion

/-- What the environment answers after `tr`: to the n-th call the n-th outcome, and for an output
graders that do what `grading` allows. -/
def OnScript (outcomes : Nat → Completion) (grading : CompletionResult → GradingOutcome → Prop)
    (tr : List ((Backend × Next) × Choice)) (x : Backend × Next) (c : Choice) : Prop :=
  match x.2 with
  | .goto (.at _ (.complete _)) => c.completion = outcomes (calls tr + 1)
  | .goto (.at _ (.judge r)) => grading r c.grading
  | _ => True

section Scripts

variable {outcomes : Nat → Completion} {k n : Nat}

theorem IsFirst.declined (h : IsFirst outcomes k) (hn : n < k) : Declined outcomes n :=
  fun j hj hle => h.2.2 j hj (hle.trans_lt hn)

theorem Declined.succ (h : Declined outcomes n) (hn : (outcomes (n + 1)).isRetryable = true) :
    Declined outcomes (n + 1) := by
  intro j hj hle
  obtain hlt | rfl := Nat.lt_or_eq_of_le hle
  · exact h j hj (Nat.le_of_lt_succ hlt)
  · exact hn

theorem Declined.isFirst (h : Declined outcomes n)
    (hn : (outcomes (n + 1)).isRetryable = false) : IsFirst outcomes (n + 1) :=
  ⟨Nat.le_add_left 1 n, hn, fun j hj hlt => h j hj (Nat.le_of_lt_succ hlt)⟩

theorem Declined.lt (h : Declined outcomes n) (hk : IsFirst outcomes k) : n < k := by
  by_contra hle
  have hret := h k hk.1 (Nat.le_of_not_lt hle)
  rw [hk.2.1] at hret
  cases hret

theorem IsFirst.unique {k' : Nat} (h : IsFirst outcomes k) (h' : IsFirst outcomes k') : k = k' := by
  obtain hlt | heq | hlt := Nat.lt_trichotomy k k'
  · exact absurd ((h'.declined hlt).lt h) (lt_irrefl _)
  · exact heq
  · exact absurd ((h.declined hlt).lt h') (lt_irrefl _)

theorem atCall_iff {y : Backend × Next} :
    atCall y = true ↔ ∃ m v a, y = (m, .goto (.at v (.complete a))) := by
  obtain ⟨m, next⟩ := y
  unfold atCall
  dsimp only
  split
  · exact iff_of_true rfl ⟨_, _, _, rfl⟩
  · rename_i hno
    exact iff_of_false (by simp) fun ⟨_, v, a, h⟩ => hno v a (Prod.mk.inj h).2

@[simp] theorem calls_nil : calls [] = 0 := rfl

theorem calls_snoc (tr : List ((Backend × Next) × Choice)) (x : (Backend × Next) × Choice) :
    calls (tr ++ [x]) = calls tr + if atCall x.1 then 1 else 0 := by
  rw [calls, List.countP_append, List.countP_singleton]
  rfl

/-- The last call is answered as the script has it. -/
theorem lastAnswer_of_script {grading : CompletionResult → GradingOutcome → Prop}
    {tr : List ((Backend × Next) × Choice)} (h : Follows (OnScript outcomes grading) tr) :
    lastAnswer tr = if calls tr = 0 then none else some (outcomes (calls tr)) := by
  induction tr using List.reverseRecOn with
  | nil => rfl
  | append_singleton tr x ih =>
    rw [calls_snoc, lastAnswer, List.filter_append, List.filter_singleton]
    cases hx : atCall x.1 with
    | false =>
      simp only [Bool.false_eq_true, if_false, cond_false, List.append_nil, Nat.add_zero]
      exact ih h.of_append
    | true =>
      have hc : x.2.completion = outcomes (calls tr + 1) := by
        have hx' := h tr x [] rfl
        obtain ⟨m, v, a, heq⟩ := atCall_iff.mp hx
        rw [heq] at hx'
        exact hx'
      simp [hc]

/-- What an environment did answer is a script. -/
theorem exists_script (tr : List ((Backend × Next) × Choice)) :
    ∃ outcomes, Follows (OnScript outcomes fun _ _ => True) tr := by
  let called := tr.filter fun p => atCall p.1
  refine ⟨fun n => (called[n - 1]?.map fun p => p.2.completion).getD (.retryable ""), ?_⟩
  intro a p b hab
  unfold OnScript
  split
  · rename_i v attempt hat
    have hp : atCall p.1 = true := atCall_iff.mpr ⟨p.1.1, v, attempt, Prod.ext rfl hat⟩
    have hcalled : called =
        a.filter (fun p => atCall p.1) ++ p :: b.filter fun p => atCall p.1 := by
      simp only [called, hab, List.filter_append, List.filter_cons, hp, if_true]
    have hlength : calls a = (a.filter fun p => atCall p.1).length := List.countP_eq_length_filter
    simp [hcalled, hlength]
  · trivial
  · trivial

end Scripts

/-! ## 2. What an execution finds, and what it leaves -/

/-- An item that can be executed, of a running run, with the rows the initial read joins. -/
structure Executable (cfg : Config) (rid : ItemId) (m : Backend) where
  row : RunItem
  task : Task
  endpoint : ModelEndpoint
  load : loadRunItem cfg.catalog m.db rid = some (row, task, endpoint, .running)
  status : row.status = .queued ∨ row.status = .deadLettered

variable {cfg : Config} {rid : ItemId} {m : Backend}

def Executable.loaded (x : Executable cfg rid m) : Loaded :=
  ⟨x.row.evalRunId, x.task, x.endpoint, x.row.cost, x.row.tokens⟩

/-- The item has this status, and `n` attempts more than the execution found. -/
def Executable.Holds (x : Executable cfg rid m) (m' : Backend) (s : RunItemStatus) (n : Nat) :
    Prop :=
  ∃ row, m'.db.items.get rid = some row ∧ row.status = s ∧
    row.attemptCount = x.row.attemptCount + n

/-- What an execution writes to no earlier than with a result. -/
structure Untouched (m m' : Backend) : Prop where
  runs : m'.db.runs = m.db.runs
  grades : m'.db.grades = m.db.grades
  dlq : m'.dlq = m.dlq

/-- The run is there with the cost and the tokens it had. -/
def SameTotals (r : RunId) (m m' : Backend) : Prop :=
  ∀ run, m.db.runs.get r = some run → ∃ run', m'.db.runs.get r = some run' ∧
    run'.totalCostUsd = run.totalCostUsd ∧ run'.totalTokens = run.totalTokens

/-- The columns take what the finalising transaction writes for this result. -/
@[mk_iff]
structure Executable.Takes (x : Executable cfg rid m) (r : CompletionResult) : Prop where
  latency : Int32 r.latencyMs
  prompt : Int32 r.promptTokens
  completion : Int32 r.completionTokens
  change : Int32 (r.promptTokens + r.completionTokens - x.row.tokens)
  tokens : ∀ run ∈ m.db.runs.get x.row.evalRunId,
    Int32 (run.totalTokens + (r.promptTokens + r.completionTokens - x.row.tokens))
  cost : ∀ run ∈ m.db.runs.get x.row.evalRunId,
    FitsNumeric (run.totalCostUsd +
      (computeCost x.endpoint.modelId r.promptTokens r.completionTokens - x.row.cost))

/-- The database takes what this answer makes the execution write, if it is the last one. -/
def Executable.Stores (x : Executable cfg rid m) : Completion → Prop
  | .result r => x.Takes r
  | .retryable e | .nonRetryable e => storableText e = true

/-- `last_error` after `n` retryable errors. -/
def lastError (outcomes : Nat → Completion) : Nat → String
  | 0 => "None"
  | n + 1 =>
    match outcomes (n + 1) with
    | .retryable e => e
    | .result _ | .nonRetryable _ => "None"

/-- The `n`-th outcome is the first that is not a retryable error, and a result. -/
structure AnsweredAt (cfg : Config) (outcomes : Nat → Completion) (n : Nat) (r : CompletionResult) :
    Prop where
  first : IsFirst outcomes n
  le : n ≤ cfg.retry.maxAttempts
  outcome : outcomes n = .result r

/-- Such a result, which the finalising transaction has stored. -/
structure PaidAt (x : Executable cfg rid m) (outcomes : Nat → Completion) (n : Nat)
    (r : CompletionResult) : Prop extends AnsweredAt cfg outcomes n r where
  takes : x.Takes r

/-- **How an execution ends**: after `n` calls, with the backend `m'`, by what it returns. -/
inductive Ends (x : Executable cfg rid m) (outcomes : Nat → Completion)
    (grading : CompletionResult → GradingOutcome → Prop) (n : Nat) (m' : Backend) : Return → Prop
  /-- The item is paid for, and the run over its limit. -/
  | aborted {r} (paid : PaidAt x outcomes n r) (dlq : m'.dlq = m.dlq)
      (row : x.Holds m' .succeeded n) :
      Ends x outcomes grading n m' ⟨.item .succeeded, some .runAborted⟩
  | graded {r} (paid : PaidAt x outcomes n r) (dlq : m'.dlq = m.dlq)
      (row : x.Holds m' .succeeded n)
      (graded : gradesOf m.db rid ≠ [] ∨ ∃ g, grading r g ∧ g.commits = true) :
      Ends x outcomes grading n m' ⟨.item .succeeded, none⟩
  /-- The graders raised, or their rows were refused. -/
  | gradingFailed {r g} (paid : PaidAt x outcomes n r) (dlq : m'.dlq = m.dlq)
      (row : x.Holds m' .failed n) (fresh : gradesOf m.db rid = []) (graders : grading r g)
      (lost : g.commits = false) (text : g.errorStored = true) :
      Ends x outcomes grading n m' ⟨.item .failed, some .gradingFailed⟩
  | rejected {e} (first : IsFirst outcomes n) (le : n ≤ cfg.retry.maxAttempts)
      (outcome : outcomes n = .nonRetryable e) (text : storableText e = true)
      (dlq : m'.dlq = m.dlq) (row : x.Holds m' .failed n)
      (totals : SameTotals x.row.evalRunId m m') :
      Ends x outcomes grading n m' ⟨.item .failed, some .nonRetryable⟩
  | exhausted (all : n = cfg.retry.maxAttempts) (declined : Declined outcomes n)
      (text : storableText (lastError outcomes n) = true) (dlq : m'.dlq = m.dlq ++ [rid])
      (row : x.Holds m' .deadLettered n) (totals : SameTotals x.row.evalRunId m m') :
      Ends x outcomes grading n m' ⟨.item .deadLettered, some .retriesExhausted⟩

/-- **How an execution is cut short**: after `n` calls the database, as `m'` has it, refuses the
transaction that would settle the item. -/
inductive Cut (x : Executable cfg rid m) (outcomes : Nat → Completion)
    (grading : CompletionResult → GradingOutcome → Prop) (n : Nat) (m' : Backend) : Prop
  | finalise {r} (answered : AnsweredAt cfg outcomes n r) (full : ¬ x.Takes r)
      (dlq : m'.dlq = m.dlq) (row : x.Holds m' .running n)
  | rejected {e} (first : IsFirst outcomes n) (le : n ≤ cfg.retry.maxAttempts)
      (outcome : outcomes n = .nonRetryable e) (text : storableText e = false)
      (dlq : m'.dlq = m.dlq) (row : x.Holds m' .running n)
  | exhausted (all : n = cfg.retry.maxAttempts) (declined : Declined outcomes n)
      (text : storableText (lastError outcomes n) = false) (dlq : m'.dlq = m.dlq)
      (row : x.Holds m' .running n)
  | gradingFailed {r g} (paid : PaidAt x outcomes n r) (dlq : m'.dlq = m.dlq)
      (row : x.Holds m' .succeeded n) (fresh : gradesOf m.db rid = []) (graders : grading r g)
      (lost : g.commits = false) (text : g.errorStored = false)

/-! ## 3. One step -/

/-- **The invariant.**  What is known before each step when the provider was called `n` times. -/
def Place (x : Executable cfg rid m) (outcomes : Nat → Completion)
    (grading : CompletionResult → GradingOutcome → Prop) (n : Nat) (m' : Backend) : Pc → Prop
  | .markRunning a =>
    a = n + 1 ∧ a ≤ cfg.retry.maxAttempts ∧ Declined outcomes n ∧ Untouched m m' ∧
      ∃ s, x.Holds m' s n
  | .complete a =>
    a = n + 1 ∧ a ≤ cfg.retry.maxAttempts ∧ Declined outcomes n ∧ Untouched m m' ∧
      x.Holds m' .running (n + 1)
  | .markNonRetryable e =>
    IsFirst outcomes n ∧ n ≤ cfg.retry.maxAttempts ∧ outcomes n = .nonRetryable e ∧
      Untouched m m' ∧ x.Holds m' .running n
  | .markDeadLettered e =>
    n = cfg.retry.maxAttempts ∧ Declined outcomes n ∧ Untouched m m' ∧
      storableText e = storableText (lastError outcomes n) ∧
      ∃ s, x.Holds m' s n ∧ (0 < n → s = .running)
  | .publishDeadLetter =>
    n = cfg.retry.maxAttempts ∧ Declined outcomes n ∧ Untouched m m' ∧
      storableText (lastError outcomes n) = true ∧ x.Holds m' .deadLettered n
  | .checkCancelled r | .writeArtifact r | .finalise r =>
    AnsweredAt cfg outcomes n r ∧ Untouched m m' ∧ x.Holds m' .running n
  | .abortCheck r | .gradeRead r =>
    PaidAt x outcomes n r ∧ m'.dlq = m.dlq ∧ m'.db.grades = m.db.grades ∧
      x.Holds m' .succeeded n
  | .judge r =>
    PaidAt x outcomes n r ∧ m'.dlq = m.dlq ∧ gradesOf m.db rid = [] ∧ x.Holds m' .succeeded n
  | .reviewCheck gs _ | .gradeCommit gs _ =>
    (∃ r review, PaidAt x outcomes n r ∧ grading r (.graded gs review)) ∧ m'.dlq = m.dlq ∧
      gradesOf m.db rid = [] ∧ x.Holds m' .succeeded n
  | .markGradingFailed e =>
    (∃ r g, PaidAt x outcomes n r ∧ grading r g ∧ g.commits = false ∧
      storableText e = g.errorStored) ∧ m'.dlq = m.dlq ∧ gradesOf m.db rid = [] ∧
      x.Holds m' .succeeded n
  | .maybeComplete ret => Ends x outcomes grading n m' ret
  | .skipCancelled | .skipAborted | .dropCancelled => False

/-- The invariant of a whole execution: the backend is still the first one, a step is next, or it
has ended or was cut short. -/
def Stands (x : Executable cfg rid m) (outcomes : Nat → Completion)
    (grading : CompletionResult → GradingOutcome → Prop) (n : Nat) : Backend × Next → Prop
  | (m', .goto .start) => m' = m ∧ n = 0
  | (m', .goto (.at v pc)) => v = x.loaded ∧ Place x outcomes grading n m' pc
  | (m', .done ret) => Ends x outcomes grading n m' ret
  | (m', .raised _) => Cut x outcomes grading n m'

section Steps

variable {x : Executable cfg rid m} {outcomes : Nat → Completion}
  {grading : CompletionResult → GradingOutcome → Prop} {n : Nat} {m' : Backend}
  {s s' : RunItemStatus}

theorem Executable.item (x : Executable cfg rid m) : m.db.items.get rid = some x.row := by
  have h := x.load
  simp only [loadRunItem, Option.bind_eq_bind, Option.bind_eq_some_iff] at h
  obtain ⟨row, hrow, task, -, endpoint, -, run, -, hpure⟩ := h
  obtain ⟨rfl, -⟩ := Prod.mk.inj (Option.some.inj hpure)
  exact hrow

theorem Executable.run (x : Executable cfg rid m) :
    ∃ run, m.db.runs.get x.row.evalRunId = some run ∧ run.status = .running := by
  have h := x.load
  simp only [loadRunItem, Option.bind_eq_bind, Option.bind_eq_some_iff] at h
  obtain ⟨row, -, task, -, endpoint, -, run, hrun, hpure⟩ := h
  obtain ⟨rfl, hrest⟩ := Prod.mk.inj (Option.some.inj hpure)
  exact ⟨run, hrun, (Prod.mk.inj (Prod.mk.inj hrest).2).2⟩

/-- The item passes the gates of the initial read. -/
theorem Executable.startRunItem (x : Executable cfg rid m) :
    startRunItem cfg rid m.db = .goto (.at x.loaded (nextAttempt cfg.retry 1 "None")) := by
  obtain h | h := x.status <;> simp [EvalHarness.startRunItem, x.load, h, Executable.loaded]

theorem Executable.Holds.update {d : Nat} {f : RunItem → RunItem} (h : x.Holds m' s n)
    (hstatus : ∀ row, (f row).status = s')
    (hcount : ∀ row, (f row).attemptCount = row.attemptCount + d) :
    x.Holds { m' with db := m'.db.updateItem rid (fun _ => true) f } s' (n + d) := by
  obtain ⟨row, hrow, -, hn⟩ := h
  refine ⟨f row, by simp [hrow], hstatus row, ?_⟩
  rw [hcount, hn, Nat.add_assoc]

theorem Untouched.rfl' : Untouched m m := ⟨rfl, rfl, rfl⟩

theorem Untouched.update {f : RunItem → RunItem} (h : Untouched m m') :
    Untouched m { m' with db := m'.db.updateItem rid (fun _ => true) f } :=
  ⟨h.runs, h.grades, h.dlq⟩

theorem Untouched.totals (h : Untouched m m') (r : RunId) : SameTotals r m m' := by
  intro run hrun
  exact ⟨run, h.runs.symm ▸ hrun, rfl, rfl⟩

/-- The completion check leaves the totals of a run alone. -/
theorem SameTotals.maybeComplete {r r' : RunId} (h : SameTotals r m m') (now : Timestamp) :
    SameTotals r m { m' with db := maybeCompleteRun m'.db r' now } := by
  intro run hrun
  obtain ⟨run', hrun', hcost, htokens⟩ := h run hrun
  simp only [maybeCompleteRun_get, hrun', Option.map_some, Option.some.injEq, exists_eq_left']
  split
  · exact ⟨hcost, htokens⟩
  · exact ⟨hcost, htokens⟩

theorem Executable.Holds.maybeComplete {r : RunId} (h : x.Holds m' s n) (now : Timestamp) :
    x.Holds { m' with db := maybeCompleteRun m'.db r now } s n := by
  obtain ⟨row, hrow, hs, hn⟩ := h
  exact ⟨row, by simpa using hrow, hs, hn⟩

theorem Ends.maybeComplete {ret : Return} {r : RunId} (h : Ends x outcomes grading n m' ret)
    (now : Timestamp) :
    Ends x outcomes grading n { m' with db := maybeCompleteRun m'.db r now } ret := by
  cases h with
  | aborted paid dlq row => exact .aborted paid dlq (row.maybeComplete now)
  | graded paid dlq row graded => exact .graded paid dlq (row.maybeComplete now) graded
  | gradingFailed paid dlq row fresh graders lost text =>
    exact .gradingFailed paid dlq (row.maybeComplete now) fresh graders lost text
  | rejected first le outcome text dlq row totals =>
    exact .rejected first le outcome text dlq (row.maybeComplete now) (totals.maybeComplete now)
  | exhausted all declined text dlq row totals =>
    exact .exhausted all declined text dlq (row.maybeComplete now) (totals.maybeComplete now)

/-- A finished execution leaves the item in a status that is not `running`. -/
theorem Ends.status {ret : Return} (h : Ends x outcomes grading n m' ret) :
    ∃ s, x.Holds m' s n ∧ s ≠ .running := by
  cases h with
  | aborted _ _ row | graded _ _ row _ => exact ⟨_, row, by simp⟩
  | gradingFailed _ _ row _ _ _ _ | rejected _ _ _ _ _ row _ => exact ⟨_, row, by simp⟩
  | exhausted _ _ _ _ row _ => exact ⟨_, row, by simp⟩

/-- The run of the item is running until somebody writes to it. -/
theorem Untouched.not_cancelled (x : Executable cfg rid m) (h : Untouched m m') :
    (m'.db.runs.get x.loaded.evalRunId).map EvalRun.status ≠ some .cancelled := by
  obtain ⟨run, hrun, hstatus⟩ := x.run
  rw [h.runs]
  simp [Executable.loaded, hrun, hstatus]

theorem Executable.Holds.finalise {r : CompletionResult} (h : x.Holds m' .running n) :
    (finaliseRunItem m'.db rid x.loaded r).2 = true ∧
      x.Holds { m' with db := (finaliseRunItem m'.db rid x.loaded r).1 } .succeeded n := by
  obtain ⟨row, hrow, hs, hn⟩ := h
  have hhit : (finaliseRunItem m'.db rid x.loaded r).2 = true :=
    finaliseRunItem_iff.mpr ⟨row, hrow, hs⟩
  refine ⟨hhit, finalisedRow rid x.loaded r row, ?_, rfl, hn⟩
  simp only [finaliseRunItem_item hhit, hrow, Option.map_some, hs, and_self, if_true]

/-- The transaction fits exactly when the columns take the result. -/
theorem Executable.Holds.finaliseFits_iff {r : CompletionResult} (h : x.Holds m' .running n)
    (huntouched : Untouched m m') :
    finaliseFits m'.db rid x.loaded r = true ↔ x.Takes r := by
  have hhit := h.finalise (r := r).1
  obtain ⟨row, hrow, hs, hn⟩ := h
  obtain ⟨run, hrun, -⟩ := x.run
  have hrun' : m'.db.runs.get x.loaded.evalRunId = some run := huntouched.runs ▸ hrun
  have hfits : finaliseFits m'.db rid x.loaded r =
      ((finalisedRow rid x.loaded r row).fits &&
        decide (Int32 (r.promptTokens + r.completionTokens - x.loaded.prevTokens)) &&
        (rollup x.loaded r run).fits) := by
    simp [finaliseFits, hhit, finaliseRunItem_item hhit, finaliseRunItem_run hhit, hrow, hs, hrun']
  rw [hfits, x.takes_iff, hrun]
  simp only [RunItem.fits, EvalRun.fits, Bool.and_eq_true, decide_eq_true_eq, Option.mem_def,
    Option.some.injEq, forall_eq']
  simp only [finalisedRow, rollup, Executable.loaded, Option.all_some, decide_eq_true_eq]
  constructor
  · rintro ⟨⟨⟨⟨⟨hl, hp⟩, hc⟩, -⟩, hchange⟩, hcost, htokens⟩
    exact ⟨hl, hp, hc, hchange, htokens, hcost⟩
  · rintro ⟨hl, hp, hc, hchange, htokens, hcost⟩
    exact ⟨⟨⟨⟨⟨hl, hp⟩, hc⟩, fits_of_int32 hp hc⟩, hchange⟩, hcost, htokens⟩

/-- The abort fails queued items only. -/
theorem Executable.Holds.abort {r : RunId} {limit : SpendLimit} {now : Timestamp}
    (h : x.Holds m' .succeeded n) (ha : (abortOverBudget m'.db r limit now).2 = true) :
    x.Holds { m' with db := (abortOverBudget m'.db r limit now).1 } .succeeded n := by
  obtain ⟨row, hrow, hs, hn⟩ := h
  refine ⟨row, ?_, hs, hn⟩
  simp [abortOverBudget_item ha, hrow, hs]

theorem finaliseRunItem_grades (db : Db) (rid : ItemId) (v : Loaded) (r : CompletionResult) :
    (finaliseRunItem db rid v r).1.grades = db.grades := by
  unfold finaliseRunItem
  split <;> rfl

/-- The head of the loop: another attempt, or none is left. -/
theorem place_nextAttempt (hle : n ≤ cfg.retry.maxAttempts)
    (hdeclined : Declined outcomes n) (huntouched : Untouched m m') (hrow : x.Holds m' s n)
    (hs : 0 < n → s = .running) :
    Place x outcomes grading n m' (nextAttempt cfg.retry (n + 1) (lastError outcomes n)) := by
  unfold nextAttempt
  dsimp only
  split
  · exact ⟨rfl, ‹_›, hdeclined, huntouched, s, hrow⟩
  · exact ⟨by omega, hdeclined, huntouched, storableText_exhausted _ _, s, hrow, hs⟩

/-- The first step is the initial read. -/
theorem stands_start : Stands x outcomes grading 0 (m, startRunItem cfg rid m.db) := by
  rw [x.startRunItem]
  exact ⟨rfl, place_nextAttempt (Nat.zero_le _) (fun j hj hle => by omega) .rfl'
    ⟨x.row, x.item, rfl, rfl⟩ fun h => absurd h (lt_irrefl 0)⟩

/-- A call of the provider settles the matter, or leaves it to the next attempt. -/
theorem stands_complete {a : Nat} {c : Choice}
    (h : Place x outcomes grading n m' (.complete a)) (hc : c.completion = outcomes (n + 1)) :
    Stands x outcomes grading (n + 1) (stepRunItem cfg c rid x.loaded m' (.complete a)) := by
  obtain ⟨rfl, hle, hdeclined, huntouched, hrow⟩ := h
  simp only [stepRunItem, hc]
  cases ho : outcomes (n + 1) with
  | result r =>
    exact ⟨rfl, ⟨hdeclined.isFirst (by rw [ho]; rfl), hle, ho⟩, huntouched, hrow⟩
  | retryable e =>
    have hlast : lastError outcomes (n + 1) = e := by rw [lastError, ho]
    have hplace : Place x outcomes grading (n + 1) m'
        (nextAttempt cfg.retry (n + 1 + 1) (lastError outcomes (n + 1))) :=
      place_nextAttempt hle (hdeclined.succ (by rw [ho]; rfl)) huntouched hrow fun _ => rfl
    rw [hlast] at hplace
    exact ⟨rfl, hplace⟩
  | nonRetryable e =>
    exact ⟨rfl, hdeclined.isFirst (by rw [ho]; rfl), hle, ho, huntouched, hrow⟩

/-- The graders, as the script has them. -/
theorem stands_judge {r : CompletionResult} {c : Choice}
    (h : Place x outcomes grading n m' (.judge r)) (hc : grading r c.grading) :
    Stands x outcomes grading n (stepRunItem cfg c rid x.loaded m' (.judge r)) := by
  obtain ⟨hpaid, hdlq, hfresh, hrow⟩ := h
  simp only [stepRunItem]
  cases hg : c.grading with
  | raises e => exact ⟨rfl, ⟨r, .raises e, hpaid, hg ▸ hc, rfl, rfl⟩, hdlq, hfresh, hrow⟩
  | graded gs review =>
    cases review with
    | none => exact ⟨rfl, ⟨r, none, hpaid, hg ▸ hc⟩, hdlq, hfresh, hrow⟩
    | some reason => exact ⟨rfl, ⟨r, some reason, hpaid, hg ▸ hc⟩, hdlq, hfresh, hrow⟩

/-- **A refused transaction cuts the execution short.** -/
theorem cut_of_refusal {pc : Pc} {e : String} (h : Place x outcomes grading n m' pc)
    (hr : refusal m' rid (.at x.loaded pc) = some e) : Cut x outcomes grading n m' := by
  unfold refusal at hr
  cases pc with
  | finalise r =>
    obtain ⟨hanswered, huntouched, hrow⟩ := h
    refine .finalise hanswered (fun htakes => ?_) huntouched.dlq hrow
    simp [(hrow.finaliseFits_iff huntouched).mpr htakes] at hr
  | markNonRetryable e =>
    obtain ⟨hfirst, hle, ho, huntouched, hrow⟩ := h
    refine .rejected hfirst hle ho (Bool.eq_false_iff.mpr fun htext => ?_) huntouched.dlq hrow
    simp [htext] at hr
  | markDeadLettered e =>
    obtain ⟨hn, hdeclined, huntouched, htext, s, hrow, hs⟩ := h
    have hbad : storableText (lastError outcomes n) = false := by
      refine Bool.eq_false_iff.mpr fun hgood => ?_
      simp [htext.trans hgood] at hr
    -- without a call the text is `None`, and stored
    obtain rfl : s = .running := hs <| Nat.pos_of_ne_zero fun h0 => by
      rw [h0] at hbad
      exact absurd hbad (by rw [lastError]; decide)
    exact .exhausted hn hdeclined hbad huntouched.dlq hrow
  | markGradingFailed e =>
    obtain ⟨⟨r, g, hpaid, hg, hlost, htext⟩, hdlq, hfresh, hrow⟩ := h
    refine .gradingFailed hpaid hdlq hrow hfresh hg hlost (htext ▸ Bool.eq_false_iff.mpr ?_)
    intro hgood
    simp [storableText_gradingError, hgood] at hr
  | _ => cases hr

/-- **Every other step keeps what is known**, without a call. -/
theorem stands_step {pc : Pc} {c : Choice} (h : Place x outcomes grading n m' pc)
    (hcall : ∀ a, pc ≠ .complete a) (hjudge : ∀ r, pc ≠ .judge r)
    (hr : refusal m' rid (.at x.loaded pc) = none) :
    Stands x outcomes grading n (stepRunItem cfg c rid x.loaded m' pc) := by
  unfold refusal at hr
  cases pc with
  | complete a => exact absurd rfl (hcall a)
  | judge r => exact absurd rfl (hjudge r)
  | skipCancelled | skipAborted | dropCancelled => exact h.elim
  | markRunning a =>
    obtain ⟨ha, hle, hdeclined, huntouched, s, hrow⟩ := h
    exact ⟨rfl, ha, hle, hdeclined, huntouched.update,
      hrow.update (fun _ => rfl) fun _ => rfl⟩
  | markNonRetryable e =>
    obtain ⟨hfirst, hle, ho, huntouched, hrow⟩ := h
    have htext : storableText e = true := by simpa using hr
    exact ⟨rfl, .rejected hfirst hle ho htext huntouched.dlq
      (hrow.update (d := 0) (fun _ => rfl) fun _ => rfl) (huntouched.update.totals _)⟩
  | markDeadLettered e =>
    obtain ⟨hn, hdeclined, huntouched, htext, s, hrow, -⟩ := h
    have hgood : storableText e = true := by simpa using hr
    exact ⟨rfl, hn, hdeclined, huntouched.update, htext.symm.trans hgood,
      hrow.update (d := 0) (fun _ => rfl) fun _ => rfl⟩
  | publishDeadLetter =>
    obtain ⟨hn, hdeclined, huntouched, htext, hrow⟩ := h
    exact ⟨rfl, .exhausted hn hdeclined htext (congrArg (· ++ [rid]) huntouched.dlq) hrow
      (huntouched.totals _)⟩
  | checkCancelled r =>
    obtain ⟨hanswered, huntouched, hrow⟩ := h
    simp only [stepRunItem, if_neg (huntouched.not_cancelled x)]
    exact ⟨rfl, hanswered, huntouched, hrow⟩
  | writeArtifact r =>
    obtain ⟨hanswered, huntouched, hrow⟩ := h
    exact ⟨rfl, hanswered, ⟨huntouched.runs, huntouched.grades, huntouched.dlq⟩, hrow⟩
  | finalise r =>
    obtain ⟨hanswered, huntouched, hrow⟩ := h
    have htakes : x.Takes r := (hrow.finaliseFits_iff huntouched).mp (by simpa using hr)
    obtain ⟨hhit, hpaid⟩ := hrow.finalise (r := r)
    simp only [stepRunItem, hhit, if_true]
    exact ⟨rfl, ⟨hanswered, htakes⟩, huntouched.dlq,
      (finaliseRunItem_grades _ _ _ _).trans huntouched.grades, hpaid⟩
  | abortCheck r =>
    obtain ⟨hpaid, hdlq, hgrades, hrow⟩ := h
    simp only [stepRunItem]
    split
    · exact .aborted hpaid hdlq (hrow.abort ‹_›)
    · exact ⟨rfl, hpaid, hdlq, hgrades, hrow⟩
  | gradeRead r =>
    obtain ⟨hpaid, hdlq, hgrades, hrow⟩ := h
    have hsame : gradesOf m'.db rid = gradesOf m.db rid := by rw [gradesOf, hgrades, gradesOf]
    simp only [stepRunItem, any_eq_gradesOf, hsame, decide_eq_true_iff]
    split
    · exact ⟨rfl, .graded hpaid hdlq hrow (.inl ‹_›)⟩
    · exact ⟨rfl, hpaid, hdlq, not_not.mp ‹_›, hrow⟩
  | reviewCheck gs reason =>
    simp only [stepRunItem]
    split
    · exact ⟨rfl, h⟩
    · exact ⟨rfl, h⟩
  | gradeCommit gs review =>
    obtain ⟨⟨r, review', hpaid, hg⟩, hdlq, hfresh, hrow⟩ := h
    simp only [stepRunItem]
    split
    · exact ⟨rfl, .graded hpaid hdlq hrow (.inr ⟨_, hg, ‹_›⟩)⟩
    · have hlost : (GradingOutcome.graded gs review').commits = false :=
        Bool.eq_false_iff.mpr ‹_›
      exact ⟨rfl, ⟨r, _, hpaid, hg, hlost, (by decide : storableText notStorable = true)⟩, hdlq,
        hfresh, hrow⟩
  | markGradingFailed e =>
    obtain ⟨⟨r, g, hpaid, hg, hlost, htext⟩, hdlq, hfresh, hrow⟩ := h
    have hgood : storableText e = true := by simpa [storableText_gradingError] using hr
    exact ⟨rfl, .gradingFailed hpaid hdlq
      (hrow.update (d := 0) (fun _ => rfl) fun _ => rfl) hfresh hg hlost (htext.symm.trans hgood)⟩
  | maybeComplete ret => exact Ends.maybeComplete h c.now

/-- **The step lemma.** -/
theorem stands_aloneChecked {tr : List ((Backend × Next) × Choice)} {y z : Backend × Next}
    {c : Choice} (h : Stands x outcomes grading (calls tr) y) (hc : OnScript outcomes grading tr y c)
    (hs : aloneChecked cfg rid y c = some z) :
    Stands x outcomes grading (calls (tr ++ [(y, c)])) z := by
  rw [calls_snoc]
  obtain ⟨m', next⟩ := y
  cases next with
  | done ret => cases hs
  | raised e => cases hs
  | goto p =>
    obtain rfl := Option.some.inj hs
    cases p with
    | start =>
      obtain ⟨rfl, hn⟩ := h
      rw [hn]
      exact stands_start
    | «at» v pc =>
      obtain ⟨rfl, hplace⟩ := h
      by_cases hcall : ∃ a, pc = .complete a
      · obtain ⟨a, rfl⟩ := hcall
        exact stands_complete hplace hc
      · have hno : ¬ atCall (m', .goto (.at x.loaded pc)) = true := by
          rintro hyes
          obtain ⟨_, v, a, heq⟩ := atCall_iff.mp hyes
          exact hcall ⟨a, (Phase.at.inj (Next.goto.inj (Prod.mk.inj heq).2)).2⟩
        rw [if_neg hno]
        cases hr : refusal m' rid (.at x.loaded pc) with
        | some e =>
          rw [executeChecked_of_some hr]
          exact cut_of_refusal hplace hr
        | none =>
          rw [executeChecked_of_none hr]
          by_cases hjudge : ∃ r, pc = .judge r
          · obtain ⟨r, rfl⟩ := hjudge
            exact stands_judge hplace hc
          · exact stands_step hplace (fun a ha => hcall ⟨a, ha⟩) (fun r hr => hjudge ⟨r, hr⟩) hr

/-- **The run lemma.**  Wherever a scripted execution gets to, the invariant holds. -/
theorem stands_of_run {tr : List ((Backend × Next) × Choice)} {y : Backend × Next}
    (hrun : Run (aloneChecked cfg rid) (m, .goto .start) tr y)
    (hscript : Follows (OnScript outcomes grading) tr) :
    Stands x outcomes grading (calls tr) y :=
  Run.induct (J := fun tr y => Stands x outcomes grading (calls tr) y)
    (show Stands x outcomes grading (calls []) (m, .goto .start) from ⟨rfl, rfl⟩)
    (fun _ _ _ _ => stands_aloneChecked) hrun hscript

/-- **How executions end.**  A finished execution has returned, in one of the five ways, or was cut
short in one of the four. -/
theorem execution_ends (x : Executable cfg rid m) {tr : List ((Backend × Next) × Choice)}
    {next : Next} (hrun : Run (aloneChecked cfg rid) (m, .goto .start) tr (m', next))
    (hscript : Follows (OnScript outcomes grading) tr) (hend : next.phase? = none) :
    (∃ ret, next = .done ret ∧ Ends x outcomes grading (calls tr) m' ret) ∨
      (∃ e, next = .raised e) ∧ Cut x outcomes grading (calls tr) m' := by
  have hstands := stands_of_run (x := x) hrun hscript
  cases next with
  | goto p => cases hend
  | done ret => exact .inl ⟨ret, rfl, hstands⟩
  | raised e => exact .inr ⟨⟨e, rfl⟩, hstands⟩

theorem Executable.Holds.status_eq_some (h : x.Holds m' s n) :
    (m'.db.items.get rid).map RunItem.status = some s := by
  obtain ⟨row, hrow, hs, -⟩ := h
  rw [hrow, Option.map_some, hs]

/-- A call of the provider finds the item running. -/
theorem Executable.running_at_call (x : Executable cfg rid m)
    {tr : List ((Backend × Next) × Choice)} {y : Backend × Next}
    (hrun : Run (aloneChecked cfg rid) (m, .goto .start) tr y) (hy : atCall y = true) :
    (y.1.db.items.get rid).map RunItem.status = some .running := by
  obtain ⟨outcomes, hscript⟩ := exists_script tr
  obtain ⟨m', v, a, rfl⟩ := atCall_iff.mp hy
  obtain ⟨-, -, -, -, -, hrow⟩ := stands_of_run (x := x) hrun hscript
  exact hrow.status_eq_some

/-- The error of the last of `n` declined calls. -/
theorem Declined.stores_iff (h : Declined outcomes n) (hn : n ≠ 0) :
    x.Stores (outcomes n) ↔ storableText (lastError outcomes n) = true := by
  obtain ⟨n, rfl⟩ := Nat.exists_eq_succ_of_ne_zero hn
  have hret := h (n + 1) (Nat.le_add_left 1 n) le_rfl
  rw [lastError]
  cases ho : outcomes (n + 1) with
  | retryable e => rfl
  | result r | nonRetryable e =>
    rw [ho] at hret
    cases hret

/-- **Out of `running`.**  A finished execution has moved its item out of `running` exactly when the
database takes what the last answer makes it write. -/
theorem not_running_iff {tr : List ((Backend × Next) × Choice)} {next : Next}
    (hrun : Run (aloneChecked cfg rid) (m, .goto .start) tr (m', next)) (hend : next.phase? = none) :
    (m'.db.items.get rid).map RunItem.status ≠ some .running ↔
      ∀ a ∈ lastAnswer tr, x.Stores a := by
  obtain ⟨outcomes, hscript⟩ := exists_script tr
  rw [lastAnswer_of_script hscript]
  have hcalled : ∀ k, 1 ≤ k → ((∀ a ∈ (if k = 0 then none else some (outcomes k)), x.Stores a) ↔
      x.Stores (outcomes k)) := by
    intro k hk
    simp [Nat.pos_iff_ne_zero.mp hk]
  have hpaid : ∀ {k r}, PaidAt x outcomes k r → x.Stores (outcomes k) := by
    intro k r hpaid
    rw [hpaid.outcome]
    exact hpaid.takes
  obtain ⟨ret, -, hends⟩ | ⟨-, hcut⟩ := execution_ends x hrun hscript hend
  · have hleft : (m'.db.items.get rid).map RunItem.status ≠ some .running := by
      obtain ⟨s, hrow, hs⟩ := hends.status
      rw [hrow.status_eq_some]
      exact fun heq => hs (Option.some.inj heq)
    refine iff_of_true hleft ?_
    cases hends with
    | aborted paid | graded paid | gradingFailed paid =>
      exact (hcalled _ paid.first.1).mpr (hpaid paid)
    | rejected first _ outcome text =>
      refine (hcalled _ first.1).mpr ?_
      rw [outcome]
      exact text
    | exhausted all declined text =>
      by_cases h0 : calls tr = 0
      · simp [h0]
      · exact (hcalled _ (Nat.pos_of_ne_zero h0)).mpr ((declined.stores_iff h0).mpr text)
  · cases hcut with
    | finalise answered full dlq row =>
      refine iff_of_false (fun h => h row.status_eq_some) fun h => full ?_
      have hstores := (hcalled _ answered.first.1).mp h
      rw [answered.outcome] at hstores
      exact hstores
    | rejected first le outcome text dlq row =>
      refine iff_of_false (fun h => h row.status_eq_some) fun h => ?_
      have hstores := (hcalled _ first.1).mp h
      rw [outcome] at hstores
      exact absurd (text.symm.trans hstores) (by simp)
    | exhausted all declined text dlq row =>
      refine iff_of_false (fun h => h row.status_eq_some) fun h => ?_
      have h0 : calls tr ≠ 0 := by
        intro h0
        rw [h0, lastError] at text
        exact absurd text (by decide)
      have hstores := (hcalled _ (Nat.pos_of_ne_zero h0)).mp h
      rw [declined.stores_iff h0, text] at hstores
      cases hstores
    | gradingFailed paid dlq row =>
      refine iff_of_true ?_ ((hcalled _ paid.first.1).mpr (hpaid paid))
      rw [row.status_eq_some]
      simp

end Steps

/-! ## 4. Every execution ends -/

/-- How many steps an execution takes at most from this place on. -/
def Pc.left (maxAttempts : Nat) : Pc → Nat
  | .markRunning a => 2 * (maxAttempts + 1 - a) + 12
  | .complete a => 2 * (maxAttempts + 1 - a) + 11
  | .checkCancelled _ => 10
  | .writeArtifact _ => 9
  | .finalise _ => 8
  | .abortCheck _ => 7
  | .gradeRead _ => 6
  | .judge _ => 5
  | .reviewCheck _ _ => 4
  | .gradeCommit _ _ | .markDeadLettered _ => 3
  | .markGradingFailed _ | .markNonRetryable _ | .publishDeadLetter => 2
  | .skipCancelled | .skipAborted | .dropCancelled | .maybeComplete _ => 1

def Next.left (maxAttempts : Nat) : Next → Nat
  | .goto .start => 2 * maxAttempts + 13
  | .goto (.at _ pc) => pc.left maxAttempts
  | .done _ | .raised _ => 0

theorem PcStep.left_lt {c : Choice} {v : Loaded} {pc pc' : Pc} (h : PcStep cfg c rid v m pc pc') :
    pc'.left cfg.retry.maxAttempts < pc.left cfg.retry.maxAttempts := by
  cases h <;> simp only [Pc.left] <;> omega

theorem executeRunItem_left_lt (cfg : Config) (c : Choice) (rid : ItemId) (m : Backend) (p : Phase) :
    (executeRunItem cfg c rid m p).2.left cfg.retry.maxAttempts <
      (Next.goto p).left cfg.retry.maxAttempts := by
  cases p with
  | start =>
    cases hnext : startRunItem cfg rid m.db with
    | done ret => simp [executeRunItem, hnext, Next.left]
    | raised e => simp [executeRunItem, hnext, Next.left]
    | goto p =>
      obtain ⟨row, task, endpoint, run, pc, -, -, -, -, rfl, hpc⟩ := startRunItem_goto hnext
      simp only [executeRunItem, hnext, Next.left]
      obtain ⟨rfl, -⟩ | ⟨rfl, -⟩ | ⟨rfl, -⟩ := hpc
      · simp only [Pc.left]
        omega
      · simp only [Pc.left]
        omega
      · unfold nextAttempt
        dsimp only
        split <;> simp only [Pc.left] <;> omega
  | «at» v pc =>
    unfold executeRunItem
    cases hnext : (stepRunItem cfg c rid v m pc).2 with
    | done ret =>
      unfold Next.left
      cases pc <;> simp [Pc.left]
    | raised e =>
      unfold Next.left
      cases pc <;> simp [Pc.left]
    | goto p =>
      obtain ⟨pc', rfl, hstep⟩ := stepRunItem_next hnext
      exact hstep.left_lt

theorem aloneChecked_left_lt {y z : Backend × Next} {c : Choice}
    (hs : aloneChecked cfg rid y c = some z) :
    z.2.left cfg.retry.maxAttempts < y.2.left cfg.retry.maxAttempts := by
  obtain ⟨m', next⟩ := y
  cases next with
  | done ret => cases hs
  | raised e => cases hs
  | goto p =>
    obtain rfl := Option.some.inj hs
    cases hr : refusal m' rid p with
    | none =>
      rw [executeChecked_of_none hr]
      exact executeRunItem_left_lt cfg c rid m' p
    | some e =>
      rw [executeChecked_of_some hr]
      exact lt_of_le_of_lt (Nat.zero_le _) (executeRunItem_left_lt cfg c rid m' p)

/-- **Executions end**, whatever their environment answers. -/
theorem execution_length_le {tr : List ((Backend × Next) × Choice)} {y : Backend × Next}
    (hrun : Run (aloneChecked cfg rid) (m, .goto .start) tr y) :
    tr.length ≤ 2 * cfg.retry.maxAttempts + 13 := by
  have hle := hrun.length_le (fun y => y.2.left cfg.retry.maxAttempts)
    (fun _ _ _ _ hs => aloneChecked_left_lt hs)
    (show Lts.Along (fun _ _ => True) tr from fun _ _ => trivial)
  exact le_trans (Nat.le_add_right _ _) hle

/-- Every script is played to its end. -/
theorem exists_execution (cfg : Config) (rid : ItemId) (m : Backend) (outcomes : Nat → Completion)
    {grading : CompletionResult → GradingOutcome → Prop} (hgrading : ∀ r, ∃ g, grading r g) :
    ∃ tr m' next, Run (aloneChecked cfg rid) (m, .goto .start) tr (m', next) ∧
      Follows (OnScript outcomes grading) tr ∧ next.phase? = none := by
  have hstep : ∀ tr (y : Backend × Next), ¬ y.2.phase? = none →
      ∃ c z, OnScript outcomes grading tr y c ∧ aloneChecked cfg rid y c = some z ∧
        z.2.left cfg.retry.maxAttempts < y.2.left cfg.retry.maxAttempts := by
    intro tr y hy
    obtain ⟨m', next⟩ := y
    cases next with
    | done ret => exact absurd rfl hy
    | raised e => exact absurd rfl hy
    | goto p =>
      have hgo : ∀ c, aloneChecked cfg rid (m', .goto p) c = some (executeChecked cfg c rid m' p) :=
        fun _ => rfl
      have hmove : ∃ c, OnScript outcomes grading tr (m', .goto p) c := by
        unfold OnScript
        split
        · exact ⟨⟨outcomes (calls tr + 1), .raises "", 0⟩, rfl⟩
        · obtain ⟨g, hg⟩ := hgrading ‹_›
          exact ⟨⟨.retryable "", g, 0⟩, hg⟩
        · exact ⟨answers, trivial⟩
      obtain ⟨c, hc⟩ := hmove
      exact ⟨c, _, hc, hgo c, aloneChecked_left_lt (hgo c)⟩
  obtain ⟨tr, ⟨m', next⟩, hrun, hscript, hend⟩ : ∃ tr y,
      Run (aloneChecked cfg rid) (m, .goto .start) tr y ∧ Follows (OnScript outcomes grading) tr ∧
        y.2.phase? = none :=
    Run.exists_final (fun y => y.2.left cfg.retry.maxAttempts) hstep
  exact ⟨tr, m', next, hrun, hscript, hend⟩

/-! ## 5. The retry loop -/

/-- The graders do not raise, and their rows can be stored. -/
def Grades (_ : CompletionResult) (g : GradingOutcome) : Prop := g.commits = true

/-- What the outcomes of the calls decide, by the position of the first that is not a retryable
error. -/
structure Settled (x : Executable cfg rid m) (outcomes : Nat → Completion) (called : Nat)
    (m' : Backend) : Prop where
  succeeded : ∀ k r, IsFirst outcomes k → k ≤ cfg.retry.maxAttempts → outcomes k = .result r →
    x.Holds m' .succeeded called ∧ m'.dlq = m.dlq
  failed : ∀ k e, IsFirst outcomes k → k ≤ cfg.retry.maxAttempts → outcomes k = .nonRetryable e →
    x.Holds m' .failed called ∧ m'.dlq = m.dlq ∧ SameTotals x.row.evalRunId m m'
  deadLettered : (∀ k, IsFirst outcomes k → cfg.retry.maxAttempts < k) →
    x.Holds m' .deadLettered called ∧ m'.dlq = m.dlq ++ [rid] ∧ SameTotals x.row.evalRunId m m'
  calls : ∀ k, IsFirst outcomes k → called = min k cfg.retry.maxAttempts
  allCalls : (∀ k, ¬ IsFirst outcomes k) → called = cfg.retry.maxAttempts

/-- The database takes what the outcome that settles the matter makes the execution write: the
numbers of a result, the text of an error. -/
structure Acceptable (x : Executable cfg rid m) (outcomes : Nat → Completion) : Prop where
  result : ∀ k r, IsFirst outcomes k → k ≤ cfg.retry.maxAttempts → outcomes k = .result r → x.Takes r
  error : ∀ k e, IsFirst outcomes k → k ≤ cfg.retry.maxAttempts → outcomes k = .nonRetryable e →
    storableText e = true
  lastError : (∀ k, IsFirst outcomes k → cfg.retry.maxAttempts < k) →
    storableText (lastError outcomes cfg.retry.maxAttempts) = true

section Loop

variable {x : Executable cfg rid m} {outcomes : Nat → Completion} {n : Nat} {m' : Backend}

/-- Without a settling outcome among the first `n` there is none within the attempts. -/
theorem Declined.exhausted (h : Declined outcomes n) (hn : n = cfg.retry.maxAttempts) :
    ∀ k, IsFirst outcomes k → cfg.retry.maxAttempts < k := fun _ hk => hn ▸ h.lt hk

theorem Executable.Holds.status_eq {s s' : RunItemStatus} (h : x.Holds m' s n)
    (h' : x.Holds m' s' n) : s = s' := by
  obtain ⟨row, hrow, hs, -⟩ := h
  obtain ⟨row', hrow', hs', -⟩ := h'
  obtain rfl := Option.some.inj (hrow.symm.trans hrow')
  exact hs.symm.trans hs'

/-- An execution that made its last call with the first outcome that settles the matter. -/
theorem settled_of_first (hfirst : IsFirst outcomes n) (hle : n ≤ cfg.retry.maxAttempts)
    (hresult : ∀ r, outcomes n = .result r → x.Holds m' .succeeded n ∧ m'.dlq = m.dlq)
    (hfailed : ∀ e, outcomes n = .nonRetryable e →
      x.Holds m' .failed n ∧ m'.dlq = m.dlq ∧ SameTotals x.row.evalRunId m m') :
    Settled x outcomes n m' where
  succeeded k r hk _ hr := hresult r (hfirst.unique hk ▸ hr)
  failed k e hk _ he := hfailed e (hfirst.unique hk ▸ he)
  deadLettered hall := absurd (hall n hfirst) (Nat.not_lt.mpr hle)
  calls k hk := by rw [← hfirst.unique hk, min_eq_left hle]
  allCalls hnone := absurd hfirst (hnone n)

/-- What is asked of the outcomes when they settle the matter. -/
theorem acceptable_of_first (hfirst : IsFirst outcomes n) (hle : n ≤ cfg.retry.maxAttempts)
    (hresult : ∀ r, outcomes n = .result r → x.Takes r)
    (herror : ∀ e, outcomes n = .nonRetryable e → storableText e = true) :
    Acceptable x outcomes where
  result _ r hk _ hr := hresult r (hfirst.unique hk ▸ hr)
  error _ e hk _ he := herror e (hfirst.unique hk ▸ he)
  lastError hall := absurd (hall n hfirst) (Nat.not_lt.mpr hle)

/-- An execution that returns has settled its item, and the database has taken everything. -/
theorem Ends.settled {ret : Return} (h : Ends x outcomes Grades n m' ret) :
    Settled x outcomes n m' ∧ Acceptable x outcomes := by
  have hpaid : ∀ {r}, PaidAt x outcomes n r → m'.dlq = m.dlq → x.Holds m' .succeeded n →
      Settled x outcomes n m' ∧ Acceptable x outcomes := by
    intro r hpaid hdlq hrow
    have hno : ∀ e, outcomes n ≠ .nonRetryable e := fun e he => by
      rw [hpaid.outcome] at he
      cases he
    have hr : ∀ r', outcomes n = .result r' → x.Takes r' := fun r' hr' => by
      rw [hpaid.outcome] at hr'
      exact Completion.result.inj hr' ▸ hpaid.takes
    exact ⟨settled_of_first hpaid.first hpaid.le (fun _ _ => ⟨hrow, hdlq⟩)
        fun e he => absurd he (hno e),
      acceptable_of_first hpaid.first hpaid.le hr fun e he => absurd he (hno e)⟩
  cases h with
  | aborted paid dlq row => exact hpaid paid dlq row
  | graded paid dlq row _ => exact hpaid paid dlq row
  | gradingFailed _ _ _ _ graders lost _ => exact absurd (graders.symm.trans lost) (by simp)
  | @rejected e first le outcome text dlq row totals =>
    have hno : ∀ r, outcomes n ≠ .result r := fun r hr => by
      rw [outcome] at hr
      cases hr
    refine ⟨settled_of_first first le (fun r hr => absurd hr (hno r)) fun _ _ => ⟨row, dlq, totals⟩,
      acceptable_of_first first le (fun r hr => absurd hr (hno r)) fun e' he' => ?_⟩
    rw [outcome] at he'
    exact Completion.nonRetryable.inj he' ▸ text
  | exhausted all declined text dlq row totals =>
    have hlt := declined.exhausted all
    refine ⟨{
      succeeded := fun k r hk hle _ => absurd (hlt k hk) (Nat.not_lt.mpr hle)
      failed := fun k e hk hle _ => absurd (hlt k hk) (Nat.not_lt.mpr hle)
      deadLettered := fun _ => ⟨row, dlq, totals⟩
      calls := fun k hk => by rw [min_eq_right (hlt k hk).le, all]
      allCalls := fun _ => all }, {
      result := fun _ _ hk hle _ => absurd (hlt _ hk) (Nat.not_lt.mpr hle)
      error := fun _ _ hk hle _ => absurd (hlt _ hk) (Nat.not_lt.mpr hle)
      lastError := fun _ => all ▸ text }⟩

/-- An execution that is cut short has not, and the database has refused something. -/
theorem Cut.not_settled (h : Cut x outcomes Grades n m') :
    ¬ Settled x outcomes n m' ∧ ¬ Acceptable x outcomes := by
  cases h with
  | finalise answered full dlq row =>
    refine ⟨fun h => ?_, fun h => full (h.result n _ answered.first answered.le answered.outcome)⟩
    cases row.status_eq (h.succeeded n _ answered.first answered.le answered.outcome).1
  | rejected first le outcome text dlq row =>
    refine ⟨fun h => ?_, fun h => absurd (h.error n _ first le outcome) (by simp [text])⟩
    cases row.status_eq (h.failed n _ first le outcome).1
  | exhausted all declined text dlq row =>
    refine ⟨fun h => ?_, fun h => ?_⟩
    · cases row.status_eq (h.deadLettered (declined.exhausted all)).1
    · have hstored := h.lastError (declined.exhausted all)
      rw [← all, text] at hstored
      cases hstored
  | gradingFailed _ _ _ _ graders lost _ => exact absurd (graders.symm.trans lost) (by simp)

/-- A finished execution has settled its item exactly when the database has taken everything. -/
theorem settled_iff {tr : List ((Backend × Next) × Choice)} {next : Next}
    (hrun : Run (aloneChecked cfg rid) (m, .goto .start) tr (m', next))
    (hscript : Follows (OnScript outcomes Grades) tr) (hend : next.phase? = none) :
    Settled x outcomes (calls tr) m' ↔ Acceptable x outcomes := by
  obtain ⟨ret, -, hends⟩ | ⟨-, hcut⟩ := execution_ends x hrun hscript hend
  · exact iff_of_true hends.settled.1 hends.settled.2
  · exact iff_of_false hcut.not_settled.1 hcut.not_settled.2

end Loop

/-- A queued item of a running run, and nothing else. -/
def oneItem : Backend where
  db :=
    { runs := ⟨[(0, { taskSetId := 0, status := .running })], by simp⟩
      items := ⟨[(0, { evalRunId := 0, taskId := 0, modelEndpointId := 0 })], by simp⟩
      grades := []
      reviews := [] }
  artifacts _ := none
  queue := []
  sent := [0]
  dlq := []

/-- It can be executed. -/
def oneItemExecutable : Executable (smallConfig 1 2 5000000) 0 oneItem where
  row := { evalRunId := 0, taskId := 0, modelEndpointId := 0 }
  task := ⟨0, "2 + 2?", "arithmetic", some "4", .exactMatch, none⟩
  endpoint := ⟨"main", "gpt-4o", "1", none⟩
  load := rfl
  status := .inl rfl

/-- A provider's error can hold a U+0000, and the database stores no such text. -/
def nulError : Completion := .nonRetryable (String.ofList [Char.ofNat 0])

end EvalHarness
