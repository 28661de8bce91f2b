/-
# The range of the totals (`app/models/eval_run.py`)

The totals of a run are columns with a range, like the counts and the cost of every item they sum up,
and a finalising transaction that would leave it is refused (`refusal`): the exception ends the
execution behind the provider call, with the item in `running`.

* `total_overflows`: one item whose two counts fit their columns, and whose sum does not.
* `rollups_in_range`: as long as every finalising transaction finds room in the columns next to what
  is stored for the run's OTHER items, none is refused; where there is no room it is.  That the
  stored items decide, and not the total, is the ledger.
-/
import EvalHarness.Ledger
import EvalHarness.Refusals

namespace EvalHarness

open Lts

variable {σ η : Type} [DecidableEq σ] [DecidableEq η] {cfg : Config} {w w' : World σ η}

/-! ## 1. Room for one more item -/

/-- `SELECT sum(f) FROM run_item WHERE eval_run_id = r AND id <> i`. -/
def sumOfOthers (db : Db) (r : RunId) (i : ItemId) (f : RunItem → Int) : Int :=
  (db.items.delete i).sumBy fun _ row => if row.evalRunId = r then f row else 0

theorem sumOver_eq_others {db : Db} {i : ItemId} {row : RunItem} (hrow : db.items.get i = some row)
    (f : RunItem → Int) :
    sumOver db row.evalRunId f = sumOfOthers db row.evalRunId i f + f row := by
  have hgone : (db.items.delete i).get i = none := by
    cases h : (db.items.delete i).get i with
    | none => rfl
    | some row' => exact absurd rfl (Table.get_delete_some.mp h).2
  have hkept : ∀ j, j ≠ i → (db.items.delete i).get j = db.items.get j := by
    intro j hj
    ext row'
    simp [Table.get_delete_some, hj]
  unfold sumOver sumOfOthers
  rw [Table.sumBy_eq_add_of_get (t := db.items.delete i) i fun j hj => by rw [hkept j hj], hgone,
    hrow]
  simp

/-- The columns have room for a completion of item `i`, whose row is `row`: its counts fit the
item's, and with what is stored for the other items of the run they fit the run's. -/
@[mk_iff]
structure RoomFor (db : Db) (i : ItemId) (row : RunItem) (endpoint : ModelEndpoint)
    (res : CompletionResult) : Prop where
  latency : Int32 res.latencyMs
  prompt : Int32 res.promptTokens
  completion : Int32 res.completionTokens
  change : Int32 (res.promptTokens + res.completionTokens - row.tokens)
  tokens : Int32 (sumOfOthers db row.evalRunId i RunItem.tokens +
    (res.promptTokens + res.completionTokens))
  cost : FitsNumeric (sumOfOthers db row.evalRunId i RunItem.cost +
    computeCost endpoint.modelId res.promptTokens res.completionTokens)

instance (db : Db) (i : ItemId) (row : RunItem) (endpoint : ModelEndpoint)
    (res : CompletionResult) : Decidable (RoomFor db i row endpoint res) :=
  decidable_of_iff _ (roomFor_iff db i row endpoint res).symm

/-- A finalising transaction that finds its item running has room. -/
def Room (w : World σ η) (l : Label σ η) : Prop :=
  ∀ i v res row, w.mover l = some ⟨i, .at v (.finalise res)⟩ →
    w.store.db.items.get i = some row → row.status = .running →
    RoomFor w.store.db i row v.endpoint res

/-- **The stored items decide.**  Where the totals are the sums over the items, the transaction fits
exactly when there is room. -/
theorem finaliseFits_iff {σ η : Type} {w : World σ η}
    {l : Label σ η} (hS : Sane cfg w) (hL : Ledger w) (hprev : PrevMatches w l)
    {i : ItemId} {v : Loaded} {res : CompletionResult} {row : RunItem}
    (he : w.mover l = some ⟨i, .at v (.finalise res)⟩)
    (hrow : w.store.db.items.get i = some row) (hst : row.status = .running) :
    finaliseFits w.store.db i v res = true ↔
      RoomFor w.store.db i row v.endpoint res := by
  obtain ⟨s, c, rfl⟩ : ∃ s c, l = .exec s c := by
    cases l with
    | exec s c => exact ⟨s, c, rfl⟩
    | _ => cases he
  obtain ⟨hcost, htokens⟩ := hprev s c i v res row rfl he hrow hst
  obtain ⟨row₁, hrow₁, hv, -⟩ := hS.loaded s i v _ he
  obtain rfl := Option.some.inj (hrow.symm.trans hrow₁)
  obtain ⟨run, hrun⟩ := hS.run_of_item i row hrow
  obtain ⟨htotalCost, htotalTokens⟩ := hL _ run hrun
  rw [sumOver_eq_others hrow] at htotalCost htotalTokens
  have hhit : (finaliseRunItem w.store.db i v res).2 = true :=
    finaliseRunItem_iff.mpr ⟨row, hrow, hst⟩
  -- what was the item's own is taken out again
  have hnewTokens : (rollup v res run).totalTokens =
      sumOfOthers w.store.db row.evalRunId i RunItem.tokens +
        (res.promptTokens + res.completionTokens) := by
    simp only [rollup, htotalTokens, htokens]
    omega
  have hnewCost : (rollup v res run).totalCostUsd =
      sumOfOthers w.store.db row.evalRunId i RunItem.cost +
        computeCost v.endpoint.modelId res.promptTokens res.completionTokens := by
    simp only [rollup, htotalCost, hcost]
    abel
  have hfits : finaliseFits w.store.db i v res =
      ((finalisedRow i v res row).fits &&
        decide (Int32 (res.promptTokens + res.completionTokens - row.tokens)) &&
        (rollup v res run).fits) := by
    simp [finaliseFits, hhit, finaliseRunItem_item hhit, finaliseRunItem_run hhit, hrow, hst, hv,
      hrun, htokens]
  rw [hfits, EvalRun.fits, hnewTokens, hnewCost]
  simp only [RunItem.fits, finalisedRow, Option.all_some, Bool.and_eq_true, decide_eq_true_eq]
  constructor
  · rintro ⟨⟨⟨⟨⟨hl, hp⟩, hc⟩, -⟩, hchange⟩, hcosts, hcounts⟩
    exact ⟨hl, hp, hc, hchange, hcounts, hcosts⟩
  · rintro ⟨hl, hp, hc, hchange, hcounts, hcosts⟩
    exact ⟨⟨⟨⟨⟨hl, hp⟩, hc⟩, fits_of_int32 hp hc⟩, hchange⟩, hcosts, hcounts⟩

/-! ## 2. Every run -/

/-- The transaction that finalises an item fits, if the step is one. -/
def Fitting (w : World σ η) (l : Label σ η) : Prop :=
  ∀ i v res, w.mover l = some ⟨i, .at v (.finalise res)⟩ → finaliseFits w.store.db i v res = true

/-- A finalising transaction that finds its item running commits. -/
def Finalises (cfg : Config) (w : World σ η) (l : Label σ η) : Prop :=
  ∀ i, wins i (w, l) = true →
    ∃ w', stepChecked cfg w l = some w' ∧ w'.statusOf i = some .succeeded

/-- The totals of every run are values of their columns. -/
def TotalsFit (w : World σ η) : Prop :=
  ∀ r run, w.store.db.runs.get r = some run → run.fits = true

theorem fitting_of_room {σ η : Type} {w : World σ η}
    {l : Label σ η} (hS : Sane cfg w) (hL : Ledger w) (hprev : PrevMatches w l)
    (hroom : Room w l) : Fitting w l := by
  intro i v res he
  by_cases hhit : (finaliseRunItem w.store.db i v res).2 = true
  · obtain ⟨row, hrow, hst⟩ := finaliseRunItem_iff.mp hhit
    exact (finaliseFits_iff hS hL hprev he hrow hst).mpr (hroom i v res row he hrow hst)
  · simp [finaliseFits, hhit]

/-- **Room is what it takes**, in every state with a ledger. -/
theorem finalises_iff {l : Label σ η} (hS : Sane cfg w) (hL : Ledger w) (hprev : PrevMatches w l) :
    Finalises cfg w l ↔ Room w l := by
  constructor
  · intro hfin i v res row he hrow hst
    rw [← finaliseFits_iff hS hL hprev he hrow hst]
    by_contra hno
    obtain ⟨s, c, rfl⟩ : ∃ s c, l = .exec s c := by
      cases l with
      | exec s c => exact ⟨s, c, rfl⟩
      | _ => cases he
    have hrunning : w.statusOf i = some .running := by simp [World.statusOf, hrow, hst]
    obtain ⟨w', hs, hdone⟩ := hfin i (wins_iff.mpr ⟨s, c, v, res, rfl, he, hrunning⟩)
    obtain rfl := refused_step (x := outOfRange) he (by simp [refusal, hno]) hs
    -- the exception left the item as it was
    have hstill : (w.setWorker s none).statusOf i = some .running := hrunning
    rw [hdone] at hstill
    cases hstill
  · intro hroom i hwin
    have hfit := fitting_of_room hS hL hprev hroom
    obtain ⟨s, c, v, res, rfl, he, -⟩ := wins_iff.mp hwin
    have hsame : stepChecked cfg w (.exec s c) = step cfg w (.exec s c) := by
      refine stepChecked_of_accepted fun e he' => ?_
      obtain rfl := Option.some.inj (he.symm.trans he')
      simp [refusal, hfit i v res he]
    obtain ⟨w', hs⟩ : ∃ w', step cfg w (.exec s c) = some w' := by simp [step, he]
    exact ⟨w', hsame.trans hs, statusOf_of_wins hs hwin⟩

/-- A step with room keeps the totals in their columns: they move in a transaction that fits. -/
theorem totalsFit_step {l : Label σ η} (hI : TotalsFit w) (hfit : Fitting w l)
    (hs : step cfg w l = some w') : TotalsFit w' := by
  intro r run' hrun'
  cases hrun : w.store.db.runs.get r with
  | none =>
    obtain ⟨_, _, _, _, -, -, hcost, htokens, -⟩ := step_run_new hs hrun' hrun
    simp only [EvalRun.fits, hcost, htokens]
    decide
  | some run =>
    have hch := runChange hs hrun hrun'
    obtain ⟨hcost, htokens⟩ | ⟨s, c, i, v, res, row, rfl, he, hv, hrow, hst, rfl⟩ := hch.spending
    · simp only [EvalRun.fits, hcost, htokens]
      exact hI r run hrun
    · have hhit : (finaliseRunItem w.store.db i v res).2 = true :=
        finaliseRunItem_iff.mpr ⟨row, hrow, hst⟩
      have hfits := hfit i v res he
      simp only [finaliseFits, hhit, finaliseRunItem_run hhit, hv, hrun, Bool.not_true,
        Bool.false_or, Bool.and_eq_true, Option.map_some, if_true, Option.all_some] at hfits
      exact hfits.2

/-- What holds along a run whose finalising transactions have room. -/
structure RangeInv (cfg : Config) (w : World σ η) : Prop where
  sane : Sane cfg w
  ledger : Ledger w
  totals : TotalsFit w

theorem rangeInv_init {σ η : Type} : RangeInv cfg (World.init : World σ η) :=
  ⟨sane_init, fun _ _ h => absurd h (by simp [World.init, Db.empty]),
    fun _ _ h => absurd h (by simp [World.init, Db.empty])⟩

theorem rangeInv_step {l : Label σ η} (hI : RangeInv cfg w) (hprev : PrevMatches w l)
    (hroom : Room w l) (hs : stepChecked cfg w l = some w') : RangeInv cfg w' := by
  have hfit := fitting_of_room hI.sane hI.ledger hprev hroom
  rw [stepChecked_eq] at hs
  -- a refused text is a death, which moves no total
  obtain ⟨-, heq⟩ | ⟨s, c, -, heq⟩ := asDeath_cases w l
  · rw [heq] at hs
    exact ⟨sane_step hI.sane hs, ledger_step hI.sane hI.ledger hprev hs,
      totalsFit_step hI.totals hfit hs⟩
  · rw [heq] at hs
    have hnone : PrevMatches w (.crash s) := fun _ _ _ _ _ _ h => by cases h
    exact ⟨sane_step hI.sane hs, ledger_step hI.sane hI.ledger hnone hs,
      totalsFit_step hI.totals (fun _ _ _ h => by cases h) hs⟩

/-- **The totals stay in range where there is room.**  In every run whose finalising transactions
have room, all of them commit and every total is a value of its column; in the state such a run
reaches the next one commits if and only if it has room. -/
theorem rollups_in_range {tr : List (World σ η × Label σ η)}
    (h : Run (stepChecked cfg) World.init tr w)
    (hok : Along (fun u l => PrevMatches u l ∧ Room u l) tr) :
    Along (Finalises cfg) tr ∧ TotalsFit w ∧
      ∀ l, PrevMatches w l → (Finalises cfg w l ↔ Room w l) := by
  obtain ⟨hI, hfin⟩ := h.induct (J := fun tr u => RangeInv cfg u ∧ Along (Finalises cfg) tr)
    ⟨rangeInv_init, fun _ hp => (List.not_mem_nil hp).elim⟩
    (fun _ _ _ _ hJ hok hs => ⟨rangeInv_step hJ.1 hok.1 hok.2 hs, Along.snoc.mpr
      ⟨hJ.2, (finalises_iff hJ.1.sane hJ.1.ledger hok.1).mpr hok.2⟩⟩) hok.follows
  exact ⟨hfin, hI.totals, fun l hprev => finalises_iff hI.sane hI.ledger hprev⟩

/-- The same conditions, to be run. -/
def hasRoom (w : World σ η) (l : Label σ η) : Bool :=
  match w.mover l with
  | some ⟨i, .at v (.finalise res)⟩ =>
    (w.store.db.items.get i).all fun row => row.status != .running ||
      decide ((v.prevCost = row.cost ∧ v.prevTokens = row.tokens) ∧
        RoomFor w.store.db i row v.endpoint res)
  | _ => true

theorem hasRoom_sound {σ η : Type} {w : World σ η}
    {l : Label σ η} (h : hasRoom w l = true) : PrevMatches w l ∧ Room w l := by
  have key : ∀ i v res row, w.mover l = some ⟨i, .at v (.finalise res)⟩ →
      w.store.db.items.get i = some row → row.status = .running →
      (v.prevCost = row.cost ∧ v.prevTokens = row.tokens) ∧
        RoomFor w.store.db i row v.endpoint res := by
    intro i v res row he hrow hst
    simpa [hasRoom, he, hrow, hst] using h
  constructor
  · rintro s c i v res row rfl he hrow hst
    exact (key i v res row he hrow hst).1
  · exact fun i v res row he hrow hst => (key i v res row he hrow hst).2

/-- Two items are answered, for 200,000 tokens each. -/
theorem rollups_in_range_small : ∃ (tr : List (World Nat Nat × Label Nat Nat)) (w : World Nat Nat)
    (run : EvalRun), Run (stepChecked (smallConfig 2 1 5000000)) World.init tr w ∧
      w.store.db.runs.get 0 = some run ∧ run.totalTokens = 400000 ∧ run.fits = true := by
  obtain ⟨tr, w, hrun, hok, htest⟩ := exists_run_of_play
    (stepChecked (smallConfig 2 1 5000000)) (World.init : World Nat Nat) hasRoom
    (launch 0 2 ++ [.deliver 0 0, .deliver 1 1] ++ execs 0 answers 6 ++ execs 1 answers 6)
    (fun _ w => (w.store.db.runs.get 0).any fun run => run.totalTokens == 400000)
    (by decide)
  obtain ⟨run, hr, htotal⟩ := (Option.any_eq_true _ _).mp htest
  obtain ⟨-, hfit, -⟩ := rollups_in_range hrun (hok.mono fun _ _ => hasRoom_sound)
  exact ⟨tr, w, run, hrun, hr, beq_iff_eq.mp htotal, hfit 0 run hr⟩

/-! ## 3. No room -/

/-- The token counts of a completion fit their columns. -/
def Completion.countsFit : Completion → Bool
  | .result r => decide (Int32 r.promptTokens ∧ Int32 r.completionTokens)
  | _ => true

/-- No provider reports counts that do not. -/
def countsFit (_ : World σ η) (l : Label σ η) : Bool :=
  match l with
  | .exec _ c => c.completion.countsFit
  | _ => true

/-- **One item overflows the total.**  Both counts fit, their sum is 2^31: the transaction is
refused behind the provider call, and the item stays in `running` with nobody at work on it. -/
theorem total_overflows : ¬ ∀ (tr : List (World Nat Nat × Label Nat Nat)) (w : World Nat Nat),
    Run (stepChecked (smallConfig 1 1 10000000)) World.init tr w →
    Along (fun u l => countsFit u l = true) tr →
    Along (Finalises (smallConfig 1 1 10000000)) tr ∧ TotalsFit w := by
  intro hclaim
  obtain ⟨tr, w, hrun, hok, htest⟩ := exists_run_of_play
    (stepChecked (smallConfig 1 1 10000000)) (World.init : World Nat Nat) countsFit
    (launch 0 1 ++ [.deliver 0 0] ++ execs 0 brimful 6)
    (fun tr _ => tr.any fun p => wins 0 p &&
      (stepChecked (smallConfig 1 1 10000000) p.1 p.2).all fun u =>
        (u.workers 0).isNone && u.statusOf 0 == some .running)
    (by decide)
  obtain ⟨p, hp, htest⟩ := List.any_eq_true.mp htest
  simp only [Bool.and_eq_true] at htest
  obtain ⟨u, hs, hdone⟩ := (hclaim tr w hrun hok).1 p hp 0 htest.1
  simp [hs, hdone] at htest

end EvalHarness
