/-
# Succeeded rows are complete

`get_leaderboard` converts four numerics of every row it is given into floats, and none of the
conversions is guarded against NULL.  They need no guard.  Every row of the board is over at least
one scored item, every item it is over is succeeded, and an item only becomes succeeded through the
update that fills in all its measurements (`complete_step`).  `leaderboard_converts` says so of
every state the system can reach, with any grades and reviews beside the items.
-/
import EvalHarness.Views

namespace EvalHarness

open Lts

variable {σ η : Type} [DecidableEq σ] [DecidableEq η] {cfg : Config} {w w' : World σ η}

/-! ## 1. The columns of a succeeded row -/

/-- What the finalising update fills in. -/
structure RunItem.IsComplete (row : RunItem) : Prop where
  latencyMs : row.latencyMs.isSome = true
  promptTokens : row.promptTokens.isSome = true
  completionTokens : row.completionTokens.isSome = true
  costUsd : row.costUsd.isSome = true
  artifactKey : row.artifactKey.isSome = true
  error : row.error = none

theorem finalisedRow_isComplete (rid : ItemId) (v : Loaded) (r : CompletionResult)
    (row : RunItem) : (finalisedRow rid v r row).IsComplete := ⟨rfl, rfl, rfl, rfl, rfl, rfl⟩

/-- The invariant. -/
def World.SucceededComplete (w : World σ η) : Prop :=
  ∀ i row, w.store.db.items.get i = some row → row.status = .succeeded → row.IsComplete

/-- Every other update of a row leaves it in another status, or does not touch it. -/
theorem ItemChange.complete {σ η : Type} {w : World σ η}
    {i : ItemId} {row row' : RunItem} {l : Label σ η}
    (h : ItemChange cfg w i row l row') (hst : row'.status = .succeeded)
    (hrow : row.status = .succeeded → row.IsComplete) : row'.IsComplete := by
  cases h with
  | keep => exact hrow hst
  | finalise => exact finalisedRow_isComplete _ _ _ _
  | _ => exact absurd hst (by simp)

theorem complete_step {l : Label σ η} (hI : w.SucceededComplete) (hs : step cfg w l = some w') :
    w'.SucceededComplete := by
  intro i row' hrow' hst
  cases hrow : w.store.db.items.get i with
  | some row => exact (itemChange hs hrow hrow').complete hst (hI i row hrow)
  | none =>
    obtain ⟨_, _, _, _, _, -, -, -, p, rfl, -⟩ := step_item_new hs hrow' hrow
    exact absurd hst (by simp)

theorem complete_of_run {tr : List (World σ η × Label σ η)}
    (h : Run (step cfg) World.init tr w) : w.SucceededComplete :=
  h.stable (fun _ _ _ hI hs => complete_step hI hs)
    fun _ _ hrow => absurd hrow (by simp [World.init, Db.empty])

/-! ## 2. The response -/

/-- `LeaderboardRow` of `app/schemas/leaderboard.py`, as far as the conversions matter. -/
structure LeaderboardResponse where
  modelEndpointId : EndpointId
  name : String
  meanScore : Sql.Numeric
  passRate : Sql.Numeric
  n : Nat
  meanLatencyMs : Option Sql.Numeric
  p95LatencyMs : Option Sql.Numeric
  totalCostUsd : Sql.Numeric
  costPer1k : Sql.Numeric
  deriving DecidableEq

/-- The body of the comprehension in `get_leaderboard`.  `none` is the `TypeError` of a
`float(None)`. -/
def LeaderboardRow.response (row : LeaderboardRow) : Option LeaderboardResponse := do
  let meanScore ← row.meanScore
  let passRate ← row.passRate
  let totalCostUsd ← row.totalCostUsd
  let costPer1k ← row.costPer1k
  return { modelEndpointId := row.modelEndpointId, name := row.name, meanScore, passRate,
           n := row.n, meanLatencyMs := row.meanLatencyMs, p95LatencyMs := row.p95LatencyMs,
           totalCostUsd, costPer1k }

/-- A row of the board that every conversion accepts, over a count one may divide by. -/
structure LeaderboardRow.Converts (row : LeaderboardRow) : Prop where
  n : 1 ≤ row.n
  meanScore : row.meanScore.isSome = true
  passRate : row.passRate.isSome = true
  totalCostUsd : row.totalCostUsd.isSome = true
  costPer1k : row.costPer1k.isSome = true

theorem LeaderboardRow.Converts.response {row : LeaderboardRow} (h : row.Converts) :
    ∃ out, row.response = some out := by
  obtain ⟨-, h1, h2, h3, h4⟩ := h
  obtain ⟨meanScore, hm⟩ := Option.isSome_iff_exists.mp h1
  obtain ⟨passRate, hp⟩ := Option.isSome_iff_exists.mp h2
  obtain ⟨total, ht⟩ := Option.isSome_iff_exists.mp h3
  obtain ⟨per1k, hk⟩ := Option.isSome_iff_exists.mp h4
  rw [LeaderboardRow.response, hm, hp, ht, hk]
  exact ⟨_, rfl⟩

/-- Rows with a score and a cost make a row that converts. -/
theorem LeaderboardRow.of_converts {id : EndpointId} {name : String} {rows : List Effective}
    (hne : rows ≠ []) (hscore : ∀ e ∈ rows, e.score.isSome = true)
    (hcost : ∀ e ∈ rows, e.costUsd.isSome = true) : (LeaderboardRow.of id name rows).Converts := by
  have havg : ∀ f : Score → Sql.Numeric,
      (Sql.avg (rows.map fun e => e.score.map f)).isSome = true := by
    intro f
    refine Sql.avg_isSome (by simpa using hne) fun x hx => ?_
    obtain ⟨e, he, rfl⟩ := List.mem_map.mp hx
    rw [Option.isSome_map, hscore e he]
  have htotal : (Sql.sum (rows.map fun e => e.costUsd.map MicroUsd.numeric)).isSome = true := by
    refine Sql.sum_isSome (by simpa using hne) fun x hx => ?_
    obtain ⟨e, he, rfl⟩ := List.mem_map.mp hx
    rw [Option.isSome_map, hcost e he]
  constructor
  · exact List.length_pos_iff.mpr hne
  · simp only [LeaderboardRow.of, EvalHarness.meanScore, Option.isSome_map, havg]
  · simp only [LeaderboardRow.of, EvalHarness.passRate, Option.isSome_map]
    exact havg fun score => if ((1 / 2 : ℚ) : Sql.Numeric) ≤ score.numeric then 1 else 0
  · exact htotal
  · simp only [LeaderboardRow.of, Option.isSome_map, htotal]

/-! ## 3. The board over complete rows -/

/-- A row of the relation has its cost from a succeeded item. -/
theorem succeeded_of_effective {cat : Catalog} {db : Db} {filters : Task → Bool} {e : Effective}
    (h : e ∈ effective cat db filters) :
    ∃ i row, db.items.get i = some row ∧ row.status = .succeeded ∧ e.costUsd = row.costUsd := by
  obtain ⟨x, hx, rfl⟩ := List.mem_map.mp h
  obtain ⟨hmem, hsel⟩ := List.mem_filter.mp hx
  have hri := Sql.mem_of_mem_join (Sql.mem_of_mem_leftJoin (Sql.mem_of_mem_leftJoin
    (Sql.mem_of_mem_leftJoin hmem)))
  simp only [Bool.and_eq_true, beq_iff_eq] at hsel
  exact ⟨_, _, (db.items.mem_rows_iff).mp hri, hsel.1, rfl⟩

/-- Joins, the NULL filter and the grouping carry completeness to the rows of the board. -/
theorem leaderboard_row_converts {collation : String → String → Bool} {cat : Catalog} {db : Db}
    {filters : Task → Bool}
    (hdb : ∀ i row, db.items.get i = some row → row.status = .succeeded → row.IsComplete)
    {r : LeaderboardRow} (hr : r ∈ leaderboard collation cat db filters) : r.Converts := by
  obtain ⟨g, hg, rfl⟩ := List.mem_map.mp ((Sql.orderBy_perm _ _).mem_iff.mp hr)
  obtain ⟨hne, hmem⟩ := Sql.mem_groupBy hg
  refine LeaderboardRow.of_converts (by simpa using hne) ?_ ?_
  · intro e he
    obtain ⟨x, hx, rfl⟩ := List.mem_map.mp he
    exact (List.mem_filter.mp (hmem x hx)).2
  · intro e he
    obtain ⟨x, hx, rfl⟩ := List.mem_map.mp he
    have hjoin := Sql.mem_of_mem_join (List.mem_of_mem_filter (hmem x hx))
    obtain ⟨i, row, hrow, hst, hcost⟩ := succeeded_of_effective hjoin
    rw [hcost]
    exact (hdb i row hrow hst).costUsd

/-- **The leaderboard cannot fail on a succeeded row.**  Under every schedule a succeeded row has
all its measurements and no error; and whatever grades and reviews stand beside the items, every
row of the board is over at least one item and has the four values that are converted, so that
the response is built. -/
theorem leaderboard_converts {tr : List (World σ η × Label σ η)}
    (h : Run (step cfg) World.init tr w) :
    (∀ i row, w.store.db.items.get i = some row → row.status = .succeeded → row.IsComplete) ∧
    ∀ (collation : String → String → Bool) (cat : Catalog) (db : Db),
      db.items = w.store.db.items → ∀ taskSetId capability,
        (∀ r ∈ getLeaderboard collation cat db taskSetId capability, r.Converts) ∧
          ∃ out, (getLeaderboard collation cat db taskSetId capability).mapM
            LeaderboardRow.response = some out := by
  refine ⟨complete_of_run h, fun collation cat db hdb taskSetId capability => ?_⟩
  have hrows : ∀ r ∈ getLeaderboard collation cat db taskSetId capability, r.Converts :=
    fun r hr => leaderboard_row_converts (by rw [hdb]; exact complete_of_run h) hr
  refine ⟨hrows, ?_⟩
  generalize getLeaderboard collation cat db taskSetId capability = rows at hrows
  induction rows with
  | nil => exact ⟨[], rfl⟩
  | cons r rows ih =>
    obtain ⟨out, ho⟩ := (hrows r (by simp)).response
    obtain ⟨outs, hos⟩ := ih fun r' hr' => hrows r' (by simp [hr'])
    exact ⟨out :: outs, by simp [List.mapM_cons, ho, hos]⟩

/-- One item, executed to its end: its row is complete, and the board beside a grade converts. -/
theorem leaderboard_converts_small : ∃ w : World (Fin 2) (Fin 1),
    w.statusOf 0 = some .succeeded ∧
    (∀ row, w.store.db.items.get 0 = some row → row.status = .succeeded → row.IsComplete) ∧
    ∀ r ∈ getLeaderboard (fun a b => decide (a ≤ b)) (smallConfig 1 1 5000000).catalog
      { w.store.db with grades := [boardGrade 0 .deterministic (some 700)] } none none,
      r.Converts := by
  obtain ⟨tr, w, hrun, -, htest⟩ := exists_run_of_play
    (step (smallConfig 1 1 5000000)) (World.init : World (Fin 2) (Fin 1)) (fun _ _ => true)
    (launch 0 1 ++ [.deliver 0 0] ++ execs 0 answers 10)
    (fun _ w => w.statusOf 0 == some .succeeded) (by decide)
  obtain ⟨hrows, hboard⟩ := leaderboard_converts hrun
  have hdb := hboard (fun a b => decide (a ≤ b)) (smallConfig 1 1 5000000).catalog
    { w.store.db with grades := [boardGrade 0 .deterministic (some 700)] } rfl none none
  exact ⟨w, beq_iff_eq.mp htest, hrows 0, hdb.1⟩

end EvalHarness
