/-
# One winner for each time an item is queued

The finalising update is guarded by `status = 'running'`, and the comment above it says what the
guard is for: only one execution of an item ever wins.  The guard alone does not give that.  It
turns a second winner away as long as nobody sets the item back to `running` behind the first
one, and `_mark_running` does so without looking.

`single_winner` is the guarantee under the condition that this does not happen, for every
schedule; `second_winner` is the schedule where it does.
-/
import EvalHarness.WellFormed

namespace EvalHarness

open Lts

variable {σ η : Type} [DecidableEq σ] [DecidableEq η] {cfg : Config} {w w' : World σ η}

/-! ## 1. The events -/

/-- The execution that takes a step. -/
def World.mover (w : World σ η) : Label σ η → Option Exec
  | .exec s _ => w.workers s
  | _ => none

/-- The finalising update of an execution of item `i` hits the row. -/
def wins (i : ItemId) (p : World σ η × Label σ η) : Bool :=
  match p.1.mover p.2 with
  | some ⟨j, .at v (.finalise res)⟩ => j == i && (finaliseRunItem p.1.store.db j v res).2
  | _ => false

/-- The item on which an execution commits `_mark_running`. -/
def marked (p : World σ η × Label σ η) : Option ItemId :=
  match p.1.mover p.2 with
  | some ⟨j, .at _ (.markRunning _)⟩ => some j
  | _ => none

/-- Item `i` is put in status `queued`. -/
def queues (cfg : Config) (i : ItemId) (p : World σ η × Label σ η) : Bool :=
  match step cfg p.1 p.2 with
  | some w' => p.1.statusOf i != some .queued && w'.statusOf i == some .queued
  | none => false

theorem wins_iff {σ η : Type} {w : World σ η} {i : ItemId} {l : Label σ η} :
    wins i (w, l) = true ↔ ∃ s c v res, l = .exec s c ∧
      w.workers s = some ⟨i, .at v (.finalise res)⟩ ∧ w.statusOf i = some .running := by
  have hst : w.statusOf i = some .running ↔
      ∃ row, w.store.db.items.get i = some row ∧ row.status = .running := by
    simp [World.statusOf, Option.map_eq_some_iff]
  constructor
  · intro h
    unfold wins at h
    split at h
    · rename_i j v res he
      simp only [Bool.and_eq_true, beq_iff_eq] at h
      obtain ⟨rfl, hhit⟩ := h
      cases l with
      | exec s c => exact ⟨s, c, v, res, rfl, he, hst.mpr (finaliseRunItem_iff.mp hhit)⟩
      | _ => exact absurd he (by simp [World.mover])
    · exact absurd h (by simp)
  · rintro ⟨s, c, v, res, rfl, he, hrun⟩
    simp only [wins, World.mover, he]
    simp [finaliseRunItem_iff.mpr (hst.mp hrun)]

theorem marked_iff {σ η : Type} {w : World σ η} {i : ItemId} {l : Label σ η} :
    marked (w, l) = some i ↔ ∃ s c v a, l = .exec s c ∧
      w.workers s = some ⟨i, .at v (.markRunning a)⟩ := by
  constructor
  · intro h
    unfold marked at h
    split at h
    · rename_i j v a he
      obtain rfl := Option.some.inj h
      cases l with
      | exec s c => exact ⟨s, c, v, a, rfl, he⟩
      | _ => exact absurd he (by simp [World.mover])
    · exact absurd h (by simp)
  · rintro ⟨s, c, v, a, rfl, he⟩
    simp [marked, World.mover, he]

/-- Only `_mark_running` sets an item to `running`. -/
theorem marked_of_running {l : Label σ η} (hs : step cfg w l = some w') {i : ItemId}
    (h : w'.statusOf i = some .running) (hne : w.statusOf i ≠ some .running) :
    marked (w, l) = some i := by
  obtain ⟨row', hrow', hst⟩ := Option.map_eq_some_iff.mp h
  cases hrow : w.store.db.items.get i with
  | none =>
    obtain ⟨_, _, _, _, _, -, -, -, p, rfl, -⟩ := step_item_new hs hrow' hrow
    exact absurd hst (by simp)
  | some row =>
    have hch := itemChange hs hrow hrow'
    cases hch with
    | markRunning hw => exact marked_iff.mpr ⟨_, _, _, _, rfl, hw⟩
    | keep => exact absurd (by simp [World.statusOf, hrow, hst]) hne
    | _ => exact absurd hst (by simp [finalisedRow])

/-- What a hit does: the item's row is final, and the run has the deltas. -/
theorem step_of_hit {s : σ} {c : Choice} (hs : step cfg w (.exec s c) = some w') {i : ItemId}
    {v : Loaded} {res : CompletionResult} (he : w.workers s = some ⟨i, .at v (.finalise res)⟩)
    (hrun : w.statusOf i = some .running) :
    (∀ j, w'.store.db.items.get j = (w.store.db.items.get j).map fun row =>
        if j = i ∧ row.status = .running then finalisedRow i v res row else row) ∧
      (∀ r, w'.store.db.runs.get r = (w.store.db.runs.get r).map fun run =>
        if r = v.evalRunId then rollup v res run else run) ∧
      w'.workers s = some ⟨i, .at v (.abortCheck res)⟩ := by
  obtain ⟨e, he', rfl⟩ := step_exec hs
  obtain rfl := Option.some.inj (he.symm.trans he')
  obtain ⟨row, hrow, hst⟩ := Option.map_eq_some_iff.mp hrun
  have hhit := finaliseRunItem_iff (v := v) (r := res).mpr ⟨row, hrow, hst⟩
  simp only [World.afterExec_store, World.afterExec_workers, executeRunItem, stepRunItem, hhit,
    if_true]
  exact ⟨fun j => finaliseRunItem_item hhit j, fun r => finaliseRunItem_run hhit r,
    by simp [Next.phase?]⟩

/-- A winner leaves the item `succeeded`. -/
theorem statusOf_of_wins {l : Label σ η} (hs : step cfg w l = some w') {i : ItemId}
    (h : wins i (w, l) = true) : w'.statusOf i = some .succeeded := by
  obtain ⟨s, c, v, res, rfl, he, hrun⟩ := wins_iff.mp h
  obtain ⟨row, hrow, hst⟩ := Option.map_eq_some_iff.mp hrun
  simp only [World.statusOf, (step_of_hit hs he hrun).1, hrow, Option.map_some, hst, and_self,
    if_true]
  rfl

/-- An item becomes `succeeded` only through its finalising update. -/
theorem wins_of_succeeded {l : Label σ η} (hs : step cfg w l = some w') {i : ItemId}
    (h : w'.statusOf i = some .succeeded) (hne : w.statusOf i ≠ some .succeeded) :
    wins i (w, l) = true := by
  obtain ⟨row', hrow', hst⟩ := Option.map_eq_some_iff.mp h
  cases hrow : w.store.db.items.get i with
  | none =>
    obtain ⟨_, _, _, _, _, -, -, -, p, rfl, -⟩ := step_item_new hs hrow' hrow
    exact absurd hst (by simp)
  | some row =>
    have hch := itemChange hs hrow hrow'
    cases hch with
    | keep => exact absurd (by simp [World.statusOf, hrow, hst]) hne
    | finalise he hrun =>
      exact wins_iff.mpr ⟨_, _, _, _, rfl, he, by simp [World.statusOf, hrow, hrun]⟩
    | _ => exact absurd hst (by simp)

/-! ## 2. The guarantee -/

/-- `_mark_running` commits on an item only while no execution has won it since it was last put
in `queued`. -/
def MarksUnwon (cfg : Config) (tr : List (World σ η × Label σ η)) (w : World σ η)
    (l : Label σ η) : Prop :=
  ∀ i ∈ marked (w, l), sinceLast (queues cfg i) (wins i) tr = 0

instance (tr : List (World σ η × Label σ η)) (w : World σ η) (l : Label σ η) :
    Decidable (MarksUnwon cfg tr w l) :=
  inferInstanceAs (Decidable (∀ i ∈ marked (w, l), sinceLast (queues cfg i) (wins i) tr = 0))

/-- The invariant: at most one winner since the item was last queued, and behind a winner the
item is not `running`. -/
def WonOnce (cfg : Config) (tr : List (World σ η × Label σ η)) (w : World σ η) : Prop :=
  ∀ i, sinceLast (queues cfg i) (wins i) tr = 0 ∨
    sinceLast (queues cfg i) (wins i) tr = 1 ∧ w.statusOf i ≠ some .running

theorem wonOnce_step {tr : List (World σ η × Label σ η)} {l : Label σ η}
    (hI : WonOnce cfg tr w) (hok : MarksUnwon cfg tr w l) (hs : step cfg w l = some w') :
    WonOnce cfg (tr ++ [(w, l)]) w' := by
  intro i
  rw [sinceLast_snoc]
  cases hq : queues cfg i (w, l) with
  | true => exact Or.inl rfl
  | false =>
    cases hwin : wins i (w, l) with
    | true =>
      -- a hit found the item running, so nobody has won it yet
      obtain ⟨_, _, _, _, _, _, hrun⟩ := wins_iff.mp hwin
      have h0 : sinceLast (queues cfg i) (wins i) tr = 0 :=
        (hI i).resolve_right fun h => h.2 hrun
      exact Or.inr ⟨by simp [h0], by simp [statusOf_of_wins hs hwin]⟩
    | false =>
      rcases hI i with h0 | ⟨h1, hne⟩
      · exact Or.inl h0
      · refine Or.inr ⟨h1, fun hrun => ?_⟩
        have := hok i (marked_of_running hs hrun hne)
        omega

theorem wonOnce_of_run {tr : List (World σ η × Label σ η)}
    (h : Run (step cfg) World.init tr w) (hok : Follows (MarksUnwon cfg) tr) :
    WonOnce cfg tr w :=
  h.induct (J := WonOnce cfg) (fun _ => Or.inl rfl)
    (fun _ _ _ _ hI hok hs => wonOnce_step hI hok hs) hok

/-- An execution of item `i` stands before its finalising update. -/
def AtFinalise (w : World σ η) (s : σ) (i : ItemId) : Prop :=
  ∃ v res, w.workers s = some ⟨i, .at v (.finalise res)⟩

/-- A finalising update that misses ends its execution, and nothing else happens. -/
theorem step_of_loses {s : σ} {c : Choice} (hs : step cfg w (.exec s c) = some w') {i : ItemId}
    (he : AtFinalise w s i) (hl : wins i (w, .exec s c) = false) :
    w'.store = w.store ∧ w'.workers s = none ∧
      w'.results = (i, ⟨.skipped, some .alreadyFinalized⟩) :: w.results := by
  obtain ⟨v, res, he⟩ := he
  obtain ⟨e, he', rfl⟩ := step_exec hs
  obtain rfl := Option.some.inj (he.symm.trans he')
  have hmiss : (finaliseRunItem w.store.db i v res).2 = false := by
    simpa [wins, World.mover, he] using hl
  simp only [executeRunItem, stepRunItem, hmiss]
  exact ⟨rfl, by simp [World.afterExec], rfl⟩

/-- The totals of run `r` are left alone, or an execution of one of its items wins and rolls its
deltas up. -/
def RollsUpWinner (r : RunId) (w : World σ η) (l : Label σ η) (run run' : EvalRun) : Prop :=
  (run'.totalCostUsd = run.totalCostUsd ∧ run'.totalTokens = run.totalTokens) ∨
    ∃ s c i v res, l = .exec s c ∧ w.workers s = some ⟨i, .at v (.finalise res)⟩ ∧
      v.evalRunId = r ∧ wins i (w, l) = true ∧ run' = rollup v res run

theorem totals_of_step {l : Label σ η} (hs : step cfg w l = some w') {r : RunId}
    {run : EvalRun} (hr : w.store.db.runs.get r = some run) :
    ∃ run', w'.store.db.runs.get r = some run' ∧ RollsUpWinner r w l run run' := by
  obtain ⟨run', hr', hch⟩ := step_run hs hr
  refine ⟨run', hr', ?_⟩
  rcases hch.spending with hsame | ⟨s, c, i, v, res, row, rfl, he, hv, hrow, hst, hrun⟩
  · exact Or.inl hsame
  · refine Or.inr ⟨s, c, i, v, res, rfl, he, hv, ?_, hrun⟩
    exact wins_iff.mpr ⟨s, c, v, res, rfl, he, by simp [World.statusOf, hrow, hst]⟩

/-- **Single winner.**  In every run in which no `_mark_running` commits behind a winner, at most
one finalising update hits between two times the item is queued.  Every other execution that
gets there leaves without a rollup, and the totals of a run move by the rollups of winners
only. -/
theorem single_winner {tr : List (World σ η × Label σ η)}
    (hrun : Run (step cfg) World.init tr w) (hok : Follows (MarksUnwon cfg) tr) (i : ItemId) :
    (∀ a b c, tr = a ++ b ++ c → (∀ p ∈ b, queues cfg i p = false) → b.countP (wins i) ≤ 1) ∧
    (∀ a s c b v, tr = a ++ (v, .exec s c) :: b → AtFinalise v s i →
      wins i (v, .exec s c) = false → ∃ v', step cfg v (.exec s c) = some v' ∧
        v'.store = v.store ∧ v'.workers s = none ∧
        v'.results = (i, ⟨.skipped, some .alreadyFinalized⟩) :: v.results) ∧
    (∀ a l b v, tr = a ++ (v, l) :: b → ∃ v', step cfg v l = some v' ∧
      ∀ r run, v.store.db.runs.get r = some run → ∃ run', v'.store.db.runs.get r = some run' ∧
        RollsUpWinner r v l run run') := by
  refine ⟨?_, ?_, ?_⟩
  · intro a b c htr hb
    obtain ⟨v, hv, -⟩ := (htr ▸ hrun).split
    have hle : sinceLast (queues cfg i) (wins i) (a ++ b) ≤ 1 := by
      rcases wonOnce_of_run hv (htr ▸ hok).of_append i with h | h <;> omega
    exact countP_le_of_sinceLast hle hb
  · intro a s c b v htr he hl
    obtain ⟨-, v', hs, -⟩ := (htr ▸ hrun).at
    exact ⟨v', hs, step_of_loses hs he hl⟩
  · intro a l b v htr
    obtain ⟨-, v', hs, -⟩ := (htr ▸ hrun).at
    exact ⟨v', hs, fun r run hr => totals_of_step hs hr⟩

theorem single_winner_small : ∃ (tr : List (World Nat Nat × Label Nat Nat)) (w : World Nat Nat),
    Run (step (smallConfig 1 1 0)) World.init tr w ∧ tr.countP (wins 0) = 1 ∧
      ∀ a b c, tr = a ++ b ++ c → (∀ p ∈ b, queues (smallConfig 1 1 0) 0 p = false) →
        b.countP (wins 0) ≤ 1 := by
  -- two deliveries, of which the second starts when the first has won
  obtain ⟨tr, w, hrun, -, htest⟩ := exists_run_of_play
    (step (smallConfig 1 1 0)) (World.init : World Nat Nat) (fun _ _ => true)
    (launch 0 1 ++ [.deliver 0 0] ++ execs 0 answers 6 ++ [.redeliver 1 0] ++ execs 1 answers 1)
    (fun tr _ => tr.countP (wins 0) == 1 &&
      followsFrom (fun a v l => decide (MarksUnwon (smallConfig 1 1 0) a v l)) [] tr)
    (by decide)
  simp only [Bool.and_eq_true, beq_iff_eq] at htest
  have hok : Follows (MarksUnwon (smallConfig 1 1 0)) tr := by
    simpa using follows_of_followsFrom htest.2
  exact ⟨tr, w, hrun, htest.1, (single_winner hrun hok 0).1⟩

/-- Two deliveries read `queued`; the second sets the item back to `running` behind the first
one's win and wins again. -/
theorem second_winner : ¬ ∀ (tr : List (World Nat Nat × Label Nat Nat)) (w : World Nat Nat),
    Run (step (smallConfig 1 1 5000000)) World.init tr w → ∀ i a b c, tr = a ++ b ++ c →
      (∀ p ∈ b, queues (smallConfig 1 1 5000000) i p = false) → b.countP (wins i) ≤ 1 := by
  intro hall
  obtain ⟨tr, w, hrun, -, htest⟩ := exists_run_of_play
    (step (smallConfig 1 1 5000000)) (World.init : World Nat Nat)
    (fun _ _ => true)
    (launch 0 1 ++ [.deliver 0 0, .redeliver 1 0] ++ execs 0 answers 1 ++ execs 1 answers 1 ++
      execs 0 answers 5 ++ execs 1 answers 5)
    (fun tr _ => (tr.drop 1).all (fun p => !queues (smallConfig 1 1 5000000) 0 p) &&
      (tr.drop 1).countP (wins 0) == 2)
    (by decide)
  simp only [Bool.and_eq_true, List.all_eq_true, Bool.not_eq_true', beq_iff_eq] at htest
  have hle := hall tr w hrun 0 (tr.take 1) (tr.drop 1) []
    (by rw [List.append_nil, List.take_append_drop]) htest.1
  omega

end EvalHarness
