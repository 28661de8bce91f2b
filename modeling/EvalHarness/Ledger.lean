/-
# The ledger

A run's totals are never computed from its items: each finalising transaction adds a delta
against what the execution read at its start.  `ledger` says that the totals are nevertheless the
sums over the items, in every reachable state of every schedule in which executions of one item
do not overlap.

Two executions of an item overlap (between initial read and last update) exactly when one of them
updates the item although the other one has done so since its initial read: if the intervals
meet, the later of the two last updates is such an update.  `Alone` forbids just that.
-/
import EvalHarness.Winner

namespace EvalHarness

open Lts

variable {σ η : Type} [DecidableEq σ] [DecidableEq η] {cfg : Config} {w w' : World σ η}

/-! ## 1. Executions that do not overlap -/

/-- Does the item update of this step, if it has one, hit a row in this state? -/
def Pc.updatesItem (row : RunItem) : Pc → Bool
  | .skipCancelled | .dropCancelled => row.status != .succeeded
  | .finalise _ => row.status == .running
  | .skipAborted | .markRunning _ | .markNonRetryable _ | .markDeadLettered _
  | .markGradingFailed _ => true
  | _ => false

/-- The slot whose execution makes its initial read, and the item. -/
def readBy (p : World σ η × Label σ η) : Option (σ × ItemId) :=
  match p.2 with
  | .exec s _ =>
    match p.1.workers s with
    | some ⟨i, .start⟩ => some (s, i)
    | _ => none
  | _ => none

/-- The slot whose execution updates its item, and the item. -/
def updatedBy (p : World σ η × Label σ η) : Option (σ × ItemId) :=
  match p.2 with
  | .exec s _ =>
    match p.1.workers s with
    | some ⟨i, .at _ pc⟩ =>
      if (p.1.store.db.items.get i).any pc.updatesItem then some (s, i) else none
    | _ => none
  | _ => none

/-- An execution in another slot updates the item. -/
def updatedByOther (s : σ) (i : ItemId) (p : World σ η × Label σ η) : Bool :=
  (updatedBy p).any fun x => x.1 != s && x.2 == i

/-- How often another execution has updated item `i` since the initial read of the one in slot
`s`. -/
def intrusions (s : σ) (i : ItemId) (tr : List (World σ η × Label σ η)) : Nat :=
  sinceLast (fun p => readBy p == some (s, i)) (updatedByOther s i) tr

/-- Whoever updates an item is the only execution that has done so since its own initial read. -/
def Alone (tr : List (World σ η × Label σ η)) (w : World σ η) (l : Label σ η) : Prop :=
  ∀ x ∈ updatedBy (w, l), intrusions x.1 x.2 tr = 0

instance (tr : List (World σ η × Label σ η)) (w : World σ η) (l : Label σ η) :
    Decidable (Alone tr w l) :=
  inferInstanceAs (Decidable (∀ x ∈ updatedBy (w, l), intrusions x.1 x.2 tr = 0))

theorem updatedBy_of_wins {σ η : Type} {w : World σ η}
    {l : Label σ η} {i : ItemId} (h : wins i (w, l) = true) :
    ∃ s c v res, l = .exec s c ∧ w.workers s = some ⟨i, .at v (.finalise res)⟩ ∧
      w.statusOf i = some .running ∧ updatedBy (w, l) = some (s, i) := by
  obtain ⟨s, c, v, res, rfl, he, hrun⟩ := wins_iff.mp h
  obtain ⟨row, hrow, hst⟩ := Option.map_eq_some_iff.mp hrun
  refine ⟨s, c, v, res, rfl, he, hrun, ?_⟩
  simp [updatedBy, he, hrow, Pc.updatesItem, hst]

/-! ## 2. What an execution remembers -/

/-- The finalising update is still to come. -/
def Pc.toFinalise : Pc → Bool
  | .markRunning _ | .complete _ | .checkCancelled _ | .writeArtifact _ | .finalise _ => true
  | _ => false

theorem PcStep.toFinalise {c : Choice} {rid : ItemId} {v : Loaded} {m : Backend} {pc pc' : Pc}
    (h : PcStep cfg c rid v m pc pc') (hp : pc'.toFinalise = true) :
    pc.toFinalise = true ∧ ∀ res, pc ≠ .finalise res := by
  cases h with
  | marked | answered | retry | passed | written => exact ⟨rfl, by simp⟩
  | _ => exact absurd hp (by simp [Pc.toFinalise])

/-- An item's cost and tokens change only when an execution of it wins. -/
theorem ItemChange.spending {σ η : Type} {w : World σ η}
    {i : ItemId} {row row' : RunItem} {l : Label σ η}
    (h : ItemChange cfg w i row l row') (hrow : w.store.db.items.get i = some row) :
    (row'.cost = row.cost ∧ row'.tokens = row.tokens) ∨ wins i (w, l) = true := by
  cases h with
  | finalise hw hst =>
    exact Or.inr (wins_iff.mpr ⟨_, _, _, _, rfl, hw, by simp [World.statusOf, hrow, hst]⟩)
  | _ => exact Or.inl ⟨rfl, rfl⟩

/-- While nobody has updated its item since its initial read, an execution remembers the item's
own cost and tokens. -/
def Remembers (tr : List (World σ η × Label σ η)) (w : World σ η) : Prop :=
  ∀ s i v pc row, w.workers s = some ⟨i, .at v pc⟩ → pc.toFinalise = true →
    w.store.db.items.get i = some row → intrusions s i tr = 0 →
      v.prevCost = row.cost ∧ v.prevTokens = row.tokens

/-- One more entry of the trace without an intrusion, and the count before it. -/
theorem intrusions_snoc {σ η : Type} [DecidableEq σ]
    {s : σ} {i : ItemId} {tr : List (World σ η × Label σ η)}
    {p : World σ η × Label σ η} (h : intrusions s i (tr ++ [p]) = 0) :
    readBy p = some (s, i) ∨ intrusions s i tr = 0 ∧ updatedByOther s i p = false := by
  simp only [intrusions, sinceLast_snoc] at h
  split at h
  · rename_i hr
    exact Or.inl (beq_iff_eq.mp hr)
  · split at h
    · omega
    · rename_i hu
      exact Or.inr ⟨h, by simpa using hu⟩

theorem remembers_step {tr : List (World σ η × Label σ η)} {l : Label σ η}
    (hS : Sane cfg w) (hI : Remembers tr w) (hs : step cfg w l = some w') :
    Remembers (tr ++ [(w, l)]) w' := by
  intro s i v pc row' he' hpc hrow' hfree
  cases step_at hs he' with
  | stayed hw hl =>
    obtain ⟨row, hrow, -⟩ := hS.loaded s i v pc hw
    have hch := itemChange hs hrow hrow'
    rcases intrusions_snoc hfree with hread | ⟨hold, hother⟩
    · cases l with
      | exec s' c =>
        simp only [readBy] at hread
        split at hread
        · obtain ⟨rfl, -⟩ := Prod.mk.inj (Option.some.inj hread)
          exact absurd rfl (hl c)
        · exact absurd hread (by simp)
      | _ => exact absurd hread (by simp [readBy])
    · rcases hch.spending hrow with ⟨hc, ht⟩ | hwin
      · rw [hc, ht]
        exact hI s i v pc row hw hpc hrow hold
      · obtain ⟨s', c, v', res, rfl, he, -, hupd⟩ := updatedBy_of_wins hwin
        have hne : s' ≠ s := fun h => hl c (h ▸ rfl)
        simp [updatedByOther, hupd, hne] at hother
  | @started _ row _ hw hrow _ _ hv =>
    obtain ⟨e, he, rfl⟩ := step_exec hs
    obtain rfl := Option.some.inj (hw.symm.trans he)
    rw [World.afterExec_store] at hrow'
    obtain rfl := Option.some.inj (hrow.symm.trans hrow')
    exact hv.2
  | @stepped c pc₀ hw hstep =>
    obtain ⟨hpc₀, hne⟩ := hstep.toFinalise hpc
    obtain ⟨row, hrow, -⟩ := hS.loaded s i v pc₀ hw
    have hch := itemChange hs hrow hrow'
    rcases intrusions_snoc hfree with hread | ⟨hold, -⟩
    · simp [readBy, hw] at hread
    · rcases hch.spending hrow with ⟨hc, ht⟩ | hwin
      · rw [hc, ht]
        exact hI s i v pc₀ row hw hpc₀ hrow hold
      · obtain ⟨s', c', v', res, hl, he, -⟩ := wins_iff.mp hwin
        obtain ⟨rfl, -⟩ := Label.exec.inj hl
        obtain ⟨-, hp⟩ := Exec.mk.inj (Option.some.inj (hw.symm.trans he))
        obtain ⟨-, rfl⟩ := Phase.at.inj hp
        exact absurd rfl (hne res)

/-! ## 3. The totals -/

/-- `SELECT sum(f) FROM run_item WHERE eval_run_id = r`. -/
def sumOver (db : Db) (r : RunId) (f : RunItem → Int) : Int :=
  db.items.sumBy fun _ row => if row.evalRunId = r then f row else 0

/-- The totals of every run are the sums over its items. -/
def Ledger (w : World σ η) : Prop :=
  ∀ r run, w.store.db.runs.get r = some run →
    run.totalCostUsd = sumOver w.store.db r RunItem.cost ∧
      run.totalTokens = sumOver w.store.db r RunItem.tokens

/-- At a win the execution remembers what the row says: the totals stay right.  This is the one
place where the ledger can go wrong. -/
def PrevMatches (w : World σ η) (l : Label σ η) : Prop :=
  ∀ s c i v res row, l = .exec s c → w.workers s = some ⟨i, .at v (.finalise res)⟩ →
    w.store.db.items.get i = some row → row.status = .running →
      v.prevCost = row.cost ∧ v.prevTokens = row.tokens

/-- An amount of the items that only a win changes has the same sum before and after any other
step. -/
theorem sumOver_of_quiet {l : Label σ η} (hs : step cfg w l = some w') (r : RunId)
    {f : RunItem → Int} (hf : ∀ r' row, RunItem.IsNew cfg.catalog row r' → f row = 0)
    (hquiet : ∀ i row row', w.store.db.items.get i = some row →
      w'.store.db.items.get i = some row' → f row' = f row) :
    sumOver w'.store.db r f = sumOver w.store.db r f := by
  refine (Table.sumBy_eq_of_get fun i => ?_).symm
  cases hrow : w.store.db.items.get i with
  | some row =>
    obtain ⟨row', hrow', hch⟩ := step_item hs hrow
    simp [hrow', hch.keeps.1, hquiet i row row' hrow hrow']
  | none =>
    cases hrow' : w'.store.db.items.get i with
    | none => rfl
    | some row' =>
      obtain ⟨_, _, r', _, _, -, -, -, hnew⟩ := step_item_new hs hrow' hrow
      simp [hf r' row' hnew]

/-- At a win the sum of its run moves by what the row moves by, and no other sum moves. -/
theorem sumOver_of_win {s : σ} {c : Choice} (hs : step cfg w (.exec s c) = some w') {i : ItemId}
    {v : Loaded} {res : CompletionResult} {row : RunItem}
    (he : w.workers s = some ⟨i, .at v (.finalise res)⟩)
    (hrow : w.store.db.items.get i = some row) (hst : row.status = .running) (r : RunId)
    (f : RunItem → Int) :
    sumOver w'.store.db r f = sumOver w.store.db r f +
      if row.evalRunId = r then f (finalisedRow i v res row) - f row else 0 := by
  have hget := (step_of_hit hs he (by simp [World.statusOf, hrow, hst])).1
  rw [sumOver, sumOver, Table.sumBy_eq_add_of_get (t := w.store.db.items) i]
  · rw [hget i, hrow]
    by_cases hr : row.evalRunId = r <;> simp [hst, hr, finalisedRow]
  · intro j hj
    rw [hget j]
    cases w.store.db.items.get j <;> simp [hj]

/-- A run that appears has items without a cost. -/
theorem sumOver_of_new {l : Label σ η} (hS : Sane cfg w) (hs : step cfg w l = some w') {r : RunId}
    (hr : w.store.db.runs.get r = none) {f : RunItem → Int}
    (hf : ∀ r' row, RunItem.IsNew cfg.catalog row r' → f row = 0) : sumOver w'.store.db r f = 0 := by
  refine Table.sumBy_eq_zero fun i row' hrow' => ?_
  cases hrow : w.store.db.items.get i with
  | some row =>
    have hch := itemChange hs hrow hrow'
    obtain ⟨run, hrun⟩ := hS.run_of_item i row hrow
    have hne : row.evalRunId ≠ r := by
      rintro rfl
      rw [hr] at hrun
      exact absurd hrun (by simp)
    simp [hch.keeps.1, hne]
  | none =>
    obtain ⟨_, _, r', _, _, -, -, -, hnew⟩ := step_item_new hs hrow' hrow
    simp [hf r' row' hnew]

theorem RunItem.IsNew.spending {row : RunItem} {r : RunId} (h : row.IsNew cfg.catalog r) :
    row.cost = 0 ∧ row.tokens = 0 := by
  obtain ⟨p, rfl, -⟩ := h
  exact ⟨rfl, rfl⟩

theorem ledger_step {l : Label σ η} (hS : Sane cfg w) (hI : Ledger w) (hprev : PrevMatches w l)
    (hs : step cfg w l = some w') : Ledger w' := by
  have hcost : ∀ r' row, RunItem.IsNew cfg.catalog row r' → row.cost = 0 :=
    fun r' row h => h.spending.1
  have htok : ∀ r' row, RunItem.IsNew cfg.catalog row r' → row.tokens = 0 :=
    fun r' row h => h.spending.2
  intro r run' hr'
  cases hr : w.store.db.runs.get r with
  | none =>
    obtain ⟨_, _, _, _, -, -, h1, h2, -⟩ := step_run_new hs hr' hr
    rw [sumOver_of_new hS hs hr hcost, sumOver_of_new hS hs hr htok]
    exact ⟨h1, h2⟩
  | some run =>
    obtain ⟨h1, h2⟩ := hI r run hr
    by_cases hwin : ∃ i, wins i (w, l) = true
    · obtain ⟨i, hwin⟩ := hwin
      obtain ⟨s, c, v, res, rfl, he, hrun⟩ := wins_iff.mp hwin
      obtain ⟨row, hrow, hst⟩ := Option.map_eq_some_iff.mp hrun
      obtain ⟨hpc, hpt⟩ := hprev s c i v res row rfl he hrow hst
      obtain ⟨row₁, hrow₁, hv, -⟩ := hS.loaded s i v _ he
      obtain rfl := Option.some.inj (hrow.symm.trans hrow₁)
      have hget := (step_of_hit hs he hrun).2.1 r
      rw [hr, hr', Option.map_some, Option.some.injEq] at hget
      rw [sumOver_of_win hs he hrow hst, sumOver_of_win hs he hrow hst, ← h1, ← h2, hget, hv]
      by_cases hrr : row.evalRunId = r
      · simp [hrr, rollup, finalisedRow, RunItem.cost, RunItem.tokens, hpc, hpt]
      · simp [hrr, Ne.symm hrr]
    · have hno : ∀ i, wins i (w, l) ≠ true := fun i h => hwin ⟨i, h⟩
      have hquiet : ∀ i row row', w.store.db.items.get i = some row →
          w'.store.db.items.get i = some row' → row'.cost = row.cost ∧ row'.tokens = row.tokens := by
        intro i row row' hrow hrow'
        have hch := itemChange hs hrow hrow'
        exact (hch.spending hrow).resolve_right (hno i)
      rw [sumOver_of_quiet hs r hcost fun i row row' h h' => (hquiet i row row' h h').1,
        sumOver_of_quiet hs r htok fun i row row' h h' => (hquiet i row row' h h').2, ← h1, ← h2]
      obtain ⟨run₁, hr₁, hroll⟩ := totals_of_step hs hr
      obtain rfl := Option.some.inj (hr₁.symm.trans hr')
      rcases hroll with hsame | ⟨_, _, i, _, _, _, _, _, hw, _⟩
      · exact hsame
      · exact absurd hw (hno i)

/-! ## 4. The ledger in every reachable state -/

/-- The invariant behind the ledger. -/
structure LedgerInv (cfg : Config) (tr : List (World σ η × Label σ η)) (w : World σ η) :
    Prop where
  sane : Sane cfg w
  remembers : Remembers tr w
  ledger : Ledger w

theorem ledgerInv_step {tr : List (World σ η × Label σ η)} {l : Label σ η}
    (hI : LedgerInv cfg tr w) (hok : Alone tr w l) (hs : step cfg w l = some w') :
    LedgerInv cfg (tr ++ [(w, l)]) w' := by
  refine ⟨sane_step hI.sane hs, remembers_step hI.sane hI.remembers hs,
    ledger_step hI.sane hI.ledger ?_ hs⟩
  rintro s c i v res row rfl he hrow hst
  have hupd : updatedBy (w, .exec s c) = some (s, i) := by
    simp [updatedBy, he, hrow, Pc.updatesItem, hst]
  exact hI.remembers s i v _ row he rfl hrow (hok _ hupd)

theorem ledgerInv_of_run {tr : List (World σ η × Label σ η)}
    (h : Run (step cfg) World.init tr w) (hok : Follows Alone tr) : LedgerInv cfg tr w :=
  h.induct (J := LedgerInv cfg)
    ⟨sane_init, fun _ _ _ _ _ h => absurd h (by simp [World.init]),
      fun _ _ h => absurd h (by simp [World.init, Db.empty])⟩
    (fun _ _ _ _ hI hok hs => ledgerInv_step hI hok hs) hok

/-- **The ledger.**  However executions, requests, redeliveries and deaths interleave, as long as
executions of one item do not overlap: every run's totals are the sums over its items. -/
theorem totals_eq_sums {tr : List (World σ η × Label σ η)} (h : Run (step cfg) World.init tr w)
    (hok : Follows Alone tr) {r : RunId} {run : EvalRun} (hr : w.store.db.runs.get r = some run) :
    run.totalCostUsd = (w.store.db.items.sumBy fun _ row =>
        if row.evalRunId = r then row.costUsd.getD 0 else 0) ∧
      run.totalTokens = (w.store.db.items.sumBy fun _ row =>
        if row.evalRunId = r then row.promptTokens.getD 0 + row.completionTokens.getD 0 else 0) :=
  (ledgerInv_of_run h hok).ledger r run hr

/-- Item 0 dies behind its rollup and is delivered again; item 1 is dead-lettered, replayed and
then answered. -/
theorem totals_eq_sums_small : ∃ (tr : List (World Nat Nat × Label Nat Nat)) (w : World Nat Nat)
    (run : EvalRun), Run (step (smallConfig 2 1 5000000)) World.init tr w ∧
      w.store.db.runs.get 0 = some run ∧ run.totalCostUsd = 2500000 ∧
      run.totalCostUsd = w.store.db.items.sumBy fun _ row =>
        if row.evalRunId = 0 then row.costUsd.getD 0 else 0 := by
  obtain ⟨tr, w, hrun, -, htest⟩ := exists_run_of_play
    (step (smallConfig 2 1 5000000)) (World.init : World Nat Nat)
    (fun _ _ => true)
    (launch 0 2 ++ [.deliver 0 0] ++ execs 0 answers 6 ++ [.crash 0, .redeliver 0 0] ++
      execs 0 answers 1 ++ [.deliver 1 1] ++ execs 1 declines 6 ++ [.replay 0 1] ++
      List.replicate 3 (.handler 0 0) ++ [.deliver 1 1] ++ execs 1 answers 11)
    (fun tr w => (w.store.db.runs.get 0).any (fun run => run.totalCostUsd == 2500000) &&
      followsFrom (fun a v l => decide (Alone a v l)) [] tr)
    (by decide)
  simp only [Bool.and_eq_true, Option.any_eq_true, beq_iff_eq] at htest
  obtain ⟨⟨run, hr, htotal⟩, hok⟩ := htest
  have hok : Follows Alone tr := by simpa using follows_of_followsFrom hok
  exact ⟨tr, w, run, hrun, hr, htotal, (totals_eq_sums hrun hok hr).1⟩

end EvalHarness
