/-
# What a cancelled run can still do

A worker looks at its run's status twice: in its initial read and once more behind the provider
call.  `cancel_safety` follows every execution from the commit of a cancellation on.  The run
stays cancelled; whoever reads it from then on turns away before the provider; and what is still
finalised and rolled up was past its second look when the cancellation committed.

Nothing is assumed about the schedule: messages may be delivered again, workers and requests may
die, replays may put items of the run back into `queued`.
-/
import EvalHarness.Ledger

namespace EvalHarness

open Lts

variable {σ η : Type} [DecidableEq σ] [DecidableEq η] {cfg : Config} {w u u' : World σ η}

/-! ## 1. The events -/

/-- The slot whose execution reads its run's status behind the provider call. -/
def checkedBy (p : World σ η × Label σ η) : Option σ :=
  match p.2 with
  | .exec s _ =>
    match p.1.workers s with
    | some ⟨_, .at _ (.checkCancelled _)⟩ => some s
    | _ => none
  | _ => none

/-- The execution in slot `s` is past that read. -/
def PastCheck (w : World σ η) (s : σ) (i : ItemId) (v : Loaded) (res : CompletionResult) : Prop :=
  w.workers s = some ⟨i, .at v (.writeArtifact res)⟩ ∨
    w.workers s = some ⟨i, .at v (.finalise res)⟩

/-! ## 2. From the commit on -/

/-- What holds after the steps `a` that follow a state `w` in which run `r` is cancelled. -/
structure AfterCancel (cfg : Config) (r : RunId) (w : World σ η)
    (a : List (World σ η × Label σ η)) (u : World σ η) : Prop where
  sane : Sane cfg u
  cancelled : u.runStatusOf r = some .cancelled
  /-- Whoever is on the way to a rollup has made its initial read before. -/
  read : ∀ s i v pc, u.workers s = some ⟨i, .at v pc⟩ → v.evalRunId = r →
    pc.toFinalise = true → ∀ p ∈ a, ∀ j, readBy p ≠ some (s, j)
  /-- Whoever is past its second look was past it before. -/
  past : ∀ s i v res, PastCheck u s i v res → v.evalRunId = r →
    PastCheck w s i v res ∧ ∀ p ∈ a, checkedBy p ≠ some s

/-- A slot that does not move reads nothing. -/
theorem not_reads_of_stayed {σ η : Type} {u : World σ η}
    {s : σ} {l : Label σ η} (hl : ∀ c, l ≠ .exec s c) :
    (∀ j, readBy (u, l) ≠ some (s, j)) ∧ checkedBy (u, l) ≠ some s := by
  constructor
  · intro j h
    simp only [readBy] at h
    split at h
    · split at h
      · obtain ⟨rfl, -⟩ := Prod.mk.inj (Option.some.inj h)
        exact hl _ rfl
      · exact absurd h (by simp)
    · exact absurd h (by simp)
  · intro h
    simp only [checkedBy] at h
    split at h
    · split at h
      · obtain rfl := Option.some.inj h
        exact hl _ rfl
      · exact absurd h (by simp)
    · exact absurd h (by simp)

theorem afterCancel_step {r : RunId} {a : List (World σ η × Label σ η)} {l : Label σ η}
    (hI : AfterCancel cfg r w a u) (hs : step cfg u l = some u') :
    AfterCancel cfg r w (a ++ [(u, l)]) u' where
  sane := sane_step hI.sane hs
  cancelled := step_cancelled hs hI.cancelled
  read := by
    intro s i v pc he' hv hp q hq j
    cases step_at hs he' with
    | stayed hw hl =>
      simp only [List.mem_append, List.mem_singleton] at hq
      rcases hq with hq | rfl
      · exact hI.read s i v pc hw hv hp q hq j
      · exact (not_reads_of_stayed hl).1 j
    | @started _ _ run _ _ _ _ hload hrun hcase =>
      -- the initial read finds the run cancelled
      have hst : run.status = .cancelled := by
        simpa [World.runStatusOf, ← hv, hload.1, hrun] using hI.cancelled
      rcases hcase with ⟨rfl, -⟩ | ⟨-, h⟩ | ⟨-, h, -⟩
      · exact absurd hp (by simp [Pc.toFinalise])
      · exact absurd (hst.symm.trans h) (by simp)
      · exact absurd hst h
    | @stepped _ pc₀ hw hstep =>
      simp only [List.mem_append, List.mem_singleton] at hq
      rcases hq with hq | rfl
      · exact hI.read s i v pc₀ hw hv (hstep.toFinalise hp).1 q hq j
      · simp [readBy, hw]
  past := by
    intro s i v res hpast hv
    have key : ∀ {pc}, u'.workers s = some ⟨i, .at v pc⟩ →
        pc = .writeArtifact res ∨ pc = .finalise res →
        PastCheck u s i v res ∧ checkedBy (u, l) ≠ some s := by
      intro pc he' hpc
      have hfirst : pc.isFirst = false := by rcases hpc with rfl | rfl <;> rfl
      rcases step_pc hs he' hfirst with ⟨hw, hl⟩ | ⟨c, pc₀, rfl, hw, hstep⟩
      · refine ⟨?_, (not_reads_of_stayed hl).2⟩
        rcases hpc with rfl | rfl
        · exact Or.inl hw
        · exact Or.inr hw
      · rcases hpc with rfl | rfl
        · -- nobody passes the check of a cancelled run
          cases hstep with
          | passed hc => exact absurd (hv ▸ hI.cancelled) hc
        · cases hstep with
          | written => exact ⟨Or.inl hw, by simp [checkedBy, hw]⟩
    have hboth : PastCheck u s i v res ∧ checkedBy (u, l) ≠ some s := by
      rcases hpast with he | he
      · exact key he (Or.inl rfl)
      · exact key he (Or.inr rfl)
    obtain ⟨hw, hold⟩ := hI.past s i v res hboth.1 hv
    refine ⟨hw, fun q hq => ?_⟩
    simp only [List.mem_append, List.mem_singleton] at hq
    rcases hq with hq | rfl
    · exact hold q hq
    · exact hboth.2

theorem afterCancel_of_run {tr tr' : List (World σ η × Label σ η)} {r : RunId}
    (h : Run (step cfg) World.init tr w) (hc : w.runStatusOf r = some .cancelled)
    (h' : Run (step cfg) w tr' u) : AfterCancel cfg r w tr' u :=
  h'.induct (J := AfterCancel cfg r w)
    ⟨sane_of_run h, hc, fun _ _ _ _ _ _ _ _ hp => absurd hp (by simp),
      fun _ _ _ _ hp _ => ⟨hp, fun _ hq => absurd hq (by simp)⟩⟩
    (fun _ _ _ _ hI _ hs => afterCancel_step hI hs)
    (show Follows (fun _ _ _ => True) tr' from fun _ _ _ _ => trivial)

/-! ## 3. Cancel safety -/

/-- **Cancel safety.**  Let a cancellation of run `r` have committed in `w`.  In every run from
there: (a) the run stays cancelled; (b) an execution that calls the provider for an item of the
run has made its initial read before; (c) whatever makes an item of the run `succeeded`, or adds
to the run's totals, is the finalising update of an execution that was past its second look at
the run's status in `w` already, and has not looked since. -/
theorem cancel_safety {tr tr' : List (World σ η × Label σ η)} {w' : World σ η} {r : RunId}
    (h : Run (step cfg) World.init tr w) (hc : w.runStatusOf r = some .cancelled)
    (h' : Run (step cfg) w tr' w') :
    w'.runStatusOf r = some .cancelled ∧
      (∀ a s c b i v k, tr' = a ++ (u, .exec s c) :: b →
        u.workers s = some ⟨i, .at v (.complete k)⟩ → v.evalRunId = r →
        ∀ p ∈ a, ∀ j, readBy p ≠ some (s, j)) ∧
      (∀ a l b, tr' = a ++ (u, l) :: b → ∃ u', step cfg u l = some u' ∧
        ((∃ i, u.runOf i = some r ∧ u.statusOf i ≠ some .succeeded ∧
            u'.statusOf i = some .succeeded) ∨
          (u.store.db.runs.get r).map (fun run => (run.totalCostUsd, run.totalTokens)) ≠
            (u'.store.db.runs.get r).map (fun run => (run.totalCostUsd, run.totalTokens)) →
        ∃ s c i v res, l = .exec s c ∧ u.workers s = some ⟨i, .at v (.finalise res)⟩ ∧
          PastCheck w s i v res ∧ ∀ p ∈ a, (∀ j, readBy p ≠ some (s, j)) ∧ checkedBy p ≠ some s)) := by
  refine ⟨(afterCancel_of_run h hc h').cancelled, ?_, ?_⟩
  · rintro a s c b i v k rfl he hv
    exact (afterCancel_of_run h hc h'.at.1).read s i v _ he hv rfl
  · rintro a l b rfl
    obtain ⟨hpre, u', hs, -⟩ := h'.at
    have hI := afterCancel_of_run h hc hpre
    refine ⟨u', hs, fun hor => ?_⟩
    have winner : ∀ i s c v res, l = .exec s c →
        u.workers s = some ⟨i, .at v (.finalise res)⟩ → v.evalRunId = r →
        ∃ s c i v res, l = .exec s c ∧ u.workers s = some ⟨i, .at v (.finalise res)⟩ ∧
          PastCheck w s i v res ∧
          ∀ p ∈ a, (∀ j, readBy p ≠ some (s, j)) ∧ checkedBy p ≠ some s := by
      intro i s c v res hl he hv
      obtain ⟨hw, hold⟩ := hI.past s i v res (Or.inr he) hv
      exact ⟨s, c, i, v, res, hl, he, hw, fun p hp => ⟨hI.read s i v _ he hv rfl p hp, hold p hp⟩⟩
    rcases hor with ⟨i, hi, hne, hsucc⟩ | hmoved
    · obtain ⟨s, c, v, res, hl, he, -⟩ := wins_iff.mp (wins_of_succeeded hs hsucc hne)
      obtain ⟨row, hrow, hv, -⟩ := hI.sane.loaded s i v _ he
      refine winner i s c v res hl he (hv.trans ?_)
      simpa [World.runOf, hrow] using hi
    · obtain ⟨run, hr, -⟩ := Option.map_eq_some_iff.mp hI.cancelled
      obtain ⟨run', hr', hroll⟩ := totals_of_step hs hr
      rcases hroll with ⟨hcost, htok⟩ | ⟨s, c, i, v, res, hl, he, hv, -, -⟩
      · simp [hr, hr', hcost, htok] at hmoved
      · exact winner i s c v res hl he hv

/-- The run is cancelled while item 0 is with the provider and item 1 is past its second look:
item 1 is still rolled up, item 0 is dropped. -/
theorem cancel_safety_small : ∃ w w' : World (Fin 2) (Fin 2),
    w.runStatusOf 0 = some .cancelled ∧ w.statusOf 1 = some .running ∧
      w'.statusOf 0 = some .failed ∧ w'.statusOf 1 = some .succeeded ∧
      w'.runStatusOf 0 = some .cancelled := by
  obtain ⟨tr, w, hrun, -, htest⟩ := exists_run_of_play
    (step (smallConfig 2 1 5000000)) (World.init : World (Fin 2) (Fin 2))
    (fun _ _ => true)
    (launch 0 2 ++ [.deliver 0 0, .deliver 1 1] ++ execs 0 answers 2 ++ execs 1 answers 4 ++
      [.cancel 1 0, .handler 1 0])
    (fun _ w => w.runStatusOf 0 == some .cancelled && w.statusOf 1 == some .running &&
      (play (step (smallConfig 2 1 5000000)) (fun _ _ => true) w
        (execs 0 answers 3 ++ execs 1 answers 2)).any fun r =>
          r.2.statusOf 0 == some .failed && r.2.statusOf 1 == some .succeeded)
    (by decide)
  simp only [Bool.and_eq_true, beq_iff_eq] at htest
  obtain ⟨⟨hc, hst⟩, hplay⟩ := htest
  obtain ⟨tr', w', hrun', -, htest'⟩ := exists_run_of_play
    (step (smallConfig 2 1 5000000)) w (fun _ _ => true)
    (execs 0 answers 3 ++ execs 1 answers 2)
    (fun _ (w : World (Fin 2) (Fin 2)) =>
      w.statusOf 0 == some .failed && w.statusOf 1 == some .succeeded)
    (by simpa [Option.any_eq_true] using hplay)
  simp only [Bool.and_eq_true, beq_iff_eq] at htest'
  exact ⟨w, w', hc, hst, htest'.1, htest'.2, (cancel_safety (u := w) hrun hc hrun').1⟩

end EvalHarness
