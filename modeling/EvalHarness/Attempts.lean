/-
# Attempts and dead letters (`list_dead_letters` in `app/api/v1/eval_runs.py`)

`attempt_count` is raised by whoever executes an item: the first delivery, a delivery after a
replay, a duplicate, one that dies half-way.  No execution sees what the others have counted, and
yet the column keeps its meaning: an execution gives its item up only behind `max_attempts` attempts
of its own, and it makes no more than that.  The proof keeps accounts.  Every execution carries the
attempts it has made and the ones it may still make, and each step of it moves an amount from one
side to the other.

`retry_budget` is the result for every schedule, redeliveries and deaths included.
`dead_letters_explained` is about the list of a run's dead letters: what each row says of its last
attempt has happened.
-/
import EvalHarness.FanOut
import EvalHarness.Once
import EvalHarness.Lib.Slots

namespace EvalHarness

open Lts

variable {σ η : Type} [DecidableEq σ] [DecidableEq η] {cfg : Config} {w w' : World σ η}

/-! ## 1. The events -/

def Pc.marks : Pc → Bool
  | .markRunning _ => true
  | _ => false

def Pc.calls : Pc → Bool
  | .complete _ => true
  | _ => false

def Pc.givesUp : Pc → Bool
  | .markDeadLettered _ => true
  | _ => false

def Pc.notices : Pc → Bool
  | .publishDeadLetter => true
  | _ => false

/-- An execution of item `i` takes a step of the given kind. -/
def takes (kind : Pc → Bool) (i : ItemId) (p : World σ η × Label σ η) : Bool :=
  match p.1.mover p.2 with
  | some ⟨j, .at _ pc⟩ => j == i && kind pc
  | _ => false

/-- A worker is given a message of item `i`. -/
def begins (i : ItemId) (p : World σ η × Label σ η) : Bool :=
  match p.2 with
  | .deliver _ j | .redeliver _ j => j == i
  | _ => false

/-- `attempt_count` of an item. -/
def World.attempts (w : World σ η) (i : ItemId) : Nat :=
  (w.store.db.items.get i).elim 0 RunItem.attemptCount

/-- What a transition does to the slots of the workers. -/
inductive WorkersChange (cfg : Config) (w : World σ η) : Label σ η → (σ → Option Exec) → Prop
  | same {l} (hl : w.mover l = none) (hb : ∀ i, begins i (w, l) = false) :
      WorkersChange cfg w l w.workers
  | began {s i l} (hl : l = .deliver s i ∨ l = .redeliver s i) (hidle : w.workers s = none) :
      WorkersChange cfg w l (Function.update w.workers s (some ⟨i, .start⟩))
  | moved {s c e} (he : w.workers s = some e) :
      WorkersChange cfg w (.exec s c) (Function.update w.workers s
        ((executeRunItem cfg c e.rid w.store e.phase).2.phase?.map fun p => ⟨e.rid, p⟩))
  | died {s} : WorkersChange cfg w (.crash s) (Function.update w.workers s none)

theorem step_workers {l : Label σ η} (hs : step cfg w l = some w') :
    WorkersChange cfg w l w'.workers := by
  cases step_cases hs with
  | createRefused | cancelRefused | replayRefused | cancelling | replaying | handled | dropped =>
    exact .same rfl fun _ => rfl
  | created hc =>
    rw [hc.workers]
    exact .same rfl fun _ => rfl
  | delivered hidle => exact .began (Or.inl rfl) hidle
  | redelivered hidle => exact .began (Or.inr rfl) hidle
  | executed he =>
    rw [World.afterExec_workers]
    exact .moved he
  | died => exact .died

theorem takes_iff {σ η : Type} {w : World σ η} {kind : Pc → Bool} {i : ItemId} {l : Label σ η} :
    takes kind i (w, l) = true ↔ ∃ s c v pc, l = .exec s c ∧ w.workers s = some ⟨i, .at v pc⟩ ∧
      kind pc = true := by
  constructor
  · intro h
    unfold takes at h
    split at h
    · rename_i j v pc he
      simp only [Bool.and_eq_true, beq_iff_eq] at h
      obtain ⟨rfl, hk⟩ := h
      cases l with
      | exec s c => exact ⟨s, c, v, pc, rfl, he, hk⟩
      | _ => exact absurd he (by simp [World.mover])
    · exact absurd h (by simp)
  · rintro ⟨s, c, v, pc, rfl, he, hk⟩
    simp [takes, World.mover, he, hk]

theorem takes_of_mover {σ η : Type} {w : World σ η}
    {kind : Pc → Bool} {i : ItemId} {l : Label σ η} (h : w.mover l = none) :
    takes kind i (w, l) = false := by
  simp [takes, h]

/-- The step of an execution that stands at `pc`. -/
theorem takes_exec {σ η : Type} {w : World σ η}
    {kind : Pc → Bool} {i j : ItemId} {s : σ} {c : Choice} {v : Loaded} {pc : Pc}
    (he : w.workers s = some ⟨j, .at v pc⟩) :
    takes kind i (w, .exec s c) = (j == i && kind pc) := by
  simp [takes, World.mover, he]

theorem takes_start {σ η : Type} {w : World σ η}
    {kind : Pc → Bool} {i j : ItemId} {s : σ} {c : Choice}
    (he : w.workers s = some ⟨j, .start⟩) : takes kind i (w, .exec s c) = false := by
  simp [takes, World.mover, he]

/-! ## 2. The columns count them -/

theorem attempts_step {l : Label σ η} (hI : Sane cfg w) (hs : step cfg w l = some w')
    (i : ItemId) : w'.attempts i = w.attempts i + (takes Pc.marks i (w, l)).toNat := by
  cases hrow : w.store.db.items.get i with
  | none =>
    have hno : takes Pc.marks i (w, l) = false := by
      by_contra htake
      obtain ⟨s, c, v, pc, -, he, -⟩ := takes_iff.mp (eq_true_of_ne_false htake)
      obtain ⟨row, hrow', -⟩ := hI.loaded s i v pc he
      exact absurd (hrow.symm.trans hrow') (by simp)
    cases hrow' : w'.store.db.items.get i with
    | none => simp [World.attempts, hrow, hrow', hno]
    | some row' =>
      obtain ⟨_, _, _, _, _, -, -, -, p, rfl, -⟩ := step_item_new hs hrow' hrow
      simp [World.attempts, hrow, hrow', hno]
  | some row =>
    obtain ⟨row', hrow', hch⟩ := step_item hs hrow
    have hkeep : row'.attemptCount = row.attemptCount + (takes Pc.marks i (w, l)).toNat := by
      by_cases hmark : ∃ s c v a, l = .exec s c ∧ w.workers s = some ⟨i, .at v (.markRunning a)⟩
      · obtain ⟨s, c, v, a, rfl, he⟩ := hmark
        rw [takes_exec he]
        obtain ⟨e, he', rfl⟩ := step_exec hs
        obtain rfl := Option.some.inj (he.symm.trans he')
        simp only [World.afterExec_store, executeRunItem, stepRunItem, markRunning,
          Db.updateItem_get, hrow, Option.map_some, and_self, if_true, Option.some.injEq] at hrow'
        rw [← hrow']
        simp [Pc.marks]
      · have hno : takes Pc.marks i (w, l) = false := by
          by_contra htake
          obtain ⟨s, c, v, pc, rfl, he, hk⟩ := takes_iff.mp (eq_true_of_ne_false htake)
          cases pc with
          | markRunning a => exact hmark ⟨s, c, v, a, rfl, he⟩
          | _ => exact absurd hk (by simp [Pc.marks])
        rw [hno]
        cases hch with
        | markRunning he => exact absurd ⟨_, _, _, _, rfl, he⟩ hmark
        | _ => rfl
    simp [World.attempts, hrow, hrow', hkeep]

/-- `attempt_count` is the number of `_mark_running`s. -/
theorem attempts_eq {tr : List (World σ η × Label σ η)} (h : Run (step cfg) World.init tr w)
    (i : ItemId) : w.attempts i = tr.countP (takes Pc.marks i) := by
  induction h with
  | nil => rfl
  | @snoc tr u l u' hrun hs ih =>
    rw [attempts_step (sane_of_run hrun) hs, ih, List.countP_append, List.countP_singleton]
    cases takes Pc.marks i (u, l) <;> rfl

theorem dlq_step {l : Label σ η} (hs : step cfg w l = some w') (i : ItemId) :
    w'.store.dlq.count i = w.store.dlq.count i + (takes Pc.notices i (w, l)).toNat := by
  have idle : w.mover l = none → w'.store.dlq = w.store.dlq →
      w'.store.dlq.count i = w.store.dlq.count i + (takes Pc.notices i (w, l)).toNat := by
    intro hm hd
    simp [takes_of_mover hm, hd]
  by_cases hl : l.isQuiet = true
  · refine idle ?_ (step_quiet hs hl).2.2.1
    cases l <;> first | rfl | exact absurd hl (by simp [Label.isQuiet])
  cases l with
  | create h payload r itemIds now =>
    refine idle rfl ?_
    rcases step_create hs with rfl | hc
    · rfl
    · exact hc.dlq
  | handler h now =>
    obtain ⟨x, -, rfl⟩ := step_handler_eq hs
    refine idle rfl ?_
    cases x with
    | createEnqueue pending => cases pending <;> rfl
    | replayReadRun rid r =>
      simp only [World.setHandler_store, stepHandler]
      split <;> rfl
    | _ => rfl
  | exec s c =>
    obtain ⟨⟨j, p⟩, he, rfl⟩ := step_exec hs
    simp only [World.afterExec_store]
    cases p with
    | start => simp [executeRunItem, takes_start he]
    | «at» v pc =>
      rw [takes_exec he]
      cases pc with
      | publishDeadLetter =>
        by_cases hji : j = i <;> simp [executeRunItem, stepRunItem, Pc.notices, hji]
      | complete | judge | checkCancelled | gradeRead | reviewCheck | gradeCommit | finalise
      | abortCheck =>
        simp only [executeRunItem, stepRunItem, Pc.notices, Bool.and_false, Bool.toNat_false,
          Nat.add_zero]
        split <;> rfl
      | _ => simp [executeRunItem, stepRunItem, Pc.notices, setArtifact]
  | cancel | replay | drop | deliver | redeliver | crash => exact absurd rfl hl

/-- The notices on `evals.dlq` are those that were published. -/
theorem dlq_eq {tr : List (World σ η × Label σ η)} (h : Run (step cfg) World.init tr w)
    (i : ItemId) : w.store.dlq.count i = tr.countP (takes Pc.notices i) := by
  induction h with
  | nil => rfl
  | @snoc tr u l u' _ hs ih =>
    rw [dlq_step hs, ih, List.countP_append, List.countP_singleton]
    cases takes Pc.notices i (u, l) <;> rfl

/-! ## 3. What an execution carries -/

/-- The attempts an execution has made on the way to giving its item up. -/
def Phase.made (n : Nat) : Phase → Nat
  | .at _ (.markRunning a) => a - 1
  | .at _ (.complete a) => a
  | .at _ (.markDeadLettered _) => n
  | _ => 0

/-- The attempts it may still make. -/
def Phase.left (n : Nat) : Phase → Nat
  | .start => n
  | .at _ (.markRunning a) => n + 1 - a
  | .at _ (.complete a) => n - a
  | _ => 0

/-- It has begun an attempt and not called the provider. -/
def Phase.calling : Phase → Nat
  | .at _ pc => pc.calls.toNat
  | .start => 0

/-- It has given its item up and not said so. -/
def Phase.noticing : Phase → Nat
  | .at _ pc => pc.notices.toNat
  | .start => 0

/-- What an execution carries for item `i`. -/
def carries (f : Phase → Nat) (i : ItemId) (e : Exec) : Nat := if e.rid = i then f e.phase else 0

/-- The amount an execution goes on with. -/
def Next.carries (f : Phase → Nat) (n : Next) : Nat := n.phase?.elim 0 f

theorem Next.carries_le {f : Phase → Nat} {n : Next} {b : Nat} (h : ∀ p, n = .goto p → f p ≤ b) :
    n.carries f ≤ b := by
  cases n with
  | goto p => exact h p rfl
  | _ => exact Nat.zero_le b

theorem nextAttempt_made (retry : RetryConfig) (a : Nat) (e : String) (v : Loaded) :
    Phase.made retry.maxAttempts (.at v (nextAttempt retry (a + 1) e)) ≤ a := by
  rw [nextAttempt]
  split
  · exact Nat.le_refl a
  · simp only [Phase.made]
    omega

theorem nextAttempt_left (retry : RetryConfig) (a : Nat) (e : String) (v : Loaded) :
    Phase.left retry.maxAttempts (.at v (nextAttempt retry (a + 1) e)) ≤ retry.maxAttempts - a := by
  rw [nextAttempt]
  split
  · simp only [Phase.left]
    omega
  · exact Nat.zero_le _

section OneStep

variable {c : Choice} {i : ItemId} {m : Backend} {v : Loaded} {pc : Pc}

/-- Nothing is carried out of an initial read but the attempts to come. -/
theorem startRunItem_carries {f : Phase → Nat} {b : Nat} (db : Db)
    (hskip : ∀ v, f (.at v .skipCancelled) ≤ b ∧ f (.at v .skipAborted) ≤ b)
    (hgo : ∀ v, f (.at v (nextAttempt cfg.retry 1 "None")) ≤ b) :
    (startRunItem cfg i db).carries f ≤ b := by
  refine Next.carries_le fun p hp => ?_
  obtain ⟨row, task, endpoint, run, pc, -, -, -, -, rfl, hcase⟩ := startRunItem_goto hp
  rcases hcase with ⟨rfl, -⟩ | ⟨rfl, -⟩ | ⟨rfl, -⟩
  · exact (hskip _).1
  · exact (hskip _).2
  · exact hgo _

/-- **Giving up costs all attempts**: an execution hands on what it has made and one more for a
`_mark_running`, and a dead letter takes `max_attempts` of them. -/
theorem made_step :
    cfg.retry.maxAttempts * pc.givesUp.toNat +
        (stepRunItem cfg c i v m pc).2.carries (Phase.made cfg.retry.maxAttempts) ≤
      Phase.made cfg.retry.maxAttempts (.at v pc) + pc.marks.toNat := by
  have key : ∀ b, (∀ pc', PcStep cfg c i v m pc pc' →
      Phase.made cfg.retry.maxAttempts (.at v pc') ≤ b) →
        (stepRunItem cfg c i v m pc).2.carries (Phase.made cfg.retry.maxAttempts) ≤ b := by
    intro b hb
    refine Next.carries_le fun p hp => ?_
    obtain ⟨pc', rfl, hstep⟩ := stepRunItem_next hp
    exact hb pc' hstep
  cases pc with
  | markRunning a =>
    have := key a fun pc' hstep => by cases hstep; exact Nat.le_refl a
    simp only [Pc.givesUp, Pc.marks, Phase.made, Bool.toNat_false, Bool.toNat_true]
    omega
  | complete a =>
    have hle : (stepRunItem cfg c i v m (.complete a)).2.carries
        (Phase.made cfg.retry.maxAttempts) ≤ a := by
      simp only [stepRunItem]
      split
      · exact Nat.zero_le a
      · exact nextAttempt_made cfg.retry a _ v
      · exact Nat.zero_le a
    simpa [Pc.givesUp, Pc.marks, Phase.made] using hle
  | markDeadLettered e =>
    have := key 0 fun pc' hstep => by cases hstep; exact Nat.le_refl 0
    simp only [Pc.givesUp, Pc.marks, Phase.made, Bool.toNat_false, Bool.toNat_true]
    omega
  | _ =>
    have := key 0 fun pc' hstep => by cases hstep <;> exact Nat.le_refl 0
    simpa [Pc.givesUp, Pc.marks, Phase.made] using this

/-- An execution that makes an attempt may make one less. -/
theorem left_step (hlt : ∀ a, pc = .markRunning a → a ≤ cfg.retry.maxAttempts) :
    pc.marks.toNat + (stepRunItem cfg c i v m pc).2.carries (Phase.left cfg.retry.maxAttempts) ≤
      Phase.left cfg.retry.maxAttempts (.at v pc) := by
  cases pc with
  | markRunning a =>
    have := hlt a rfl
    simp only [stepRunItem, Next.carries, Next.phase?, Option.elim, Phase.left, Pc.marks,
      Bool.toNat_true]
    omega
  | complete a =>
    simp only [stepRunItem, Pc.marks, Bool.toNat_false, Nat.zero_add, Phase.left]
    split
    · exact Nat.zero_le _
    · exact nextAttempt_left cfg.retry a _ v
    · exact Nat.zero_le _
  | _ =>
    simp only [Pc.marks, Bool.toNat_false, Nat.zero_add]
    refine Next.carries_le fun p hp => ?_
    obtain ⟨pc', rfl, hstep⟩ := stepRunItem_next hp
    cases hstep <;> exact Nat.le_refl 0

/-- Every call of the provider has its `_mark_running`. -/
theorem calling_step : pc.calls.toNat + (stepRunItem cfg c i v m pc).2.carries Phase.calling ≤
    Phase.calling (.at v pc) + pc.marks.toNat := by
  cases pc with
  | markRunning a => exact Nat.le_refl 1
  | complete a =>
    simp only [stepRunItem, Pc.calls, Pc.marks, Phase.calling, Bool.toNat_true, Bool.toNat_false]
    split
    · exact Nat.le_refl 1
    · rw [nextAttempt]
      split <;> exact Nat.le_refl 1
    · exact Nat.le_refl 1
  | _ =>
    simp only [Pc.calls, Pc.marks, Bool.toNat_false, Nat.zero_add, Nat.add_zero]
    refine Next.carries_le fun p hp => ?_
    obtain ⟨pc', rfl, hstep⟩ := stepRunItem_next hp
    cases hstep <;> exact Nat.le_refl 0

/-- A notice follows every dead letter and nothing else. -/
theorem noticing_step : pc.notices.toNat + (stepRunItem cfg c i v m pc).2.carries Phase.noticing =
    Phase.noticing (.at v pc) + pc.givesUp.toNat := by
  cases pc with
  | markDeadLettered e => rfl
  | publishDeadLetter => rfl
  | complete a =>
    simp only [stepRunItem, Pc.notices, Pc.givesUp, Phase.noticing]
    split
    · rfl
    · rw [nextAttempt]
      split <;> rfl
    · rfl
  | checkCancelled | finalise | abortCheck | gradeRead | judge | reviewCheck | gradeCommit =>
    simp only [stepRunItem]
    split <;> rfl
  | _ => rfl

end OneStep

/-! ## 4. The accounts -/

theorem countP_snoc {α : Type} (p : α → Bool) (xs : List α) (x : α) :
    (xs ++ [x]).countP p = xs.countP p + (p x).toNat := by
  rw [List.countP_append, List.countP_singleton]
  cases p x <;> rfl

theorem weight_map (f : Phase → Nat) (i j : ItemId) (o : Option Phase) :
    weight (carries f i) (o.map fun p => ⟨j, p⟩) = if j = i then o.elim 0 f else 0 := by
  cases o with
  | none => simp
  | some p => simp [carries]

/-- What a transition brings into the slots for item `i`, and what it takes out of them. -/
inductive Portion (cfg : Config) (f : Phase → Nat) (i : ItemId) (w : World σ η) :
    Label σ η → Nat → Nat → Prop
  | other {l} (ht : ∀ kind, takes kind i (w, l) = false) (hb : begins i (w, l) = false) :
      Portion cfg f i w l 0 0
  | began {l} (ht : ∀ kind, takes kind i (w, l) = false) (hb : begins i (w, l) = true) :
      Portion cfg f i w l (f .start) 0
  | read {s c} (he : w.workers s = some ⟨i, .start⟩) :
      Portion cfg f i w (.exec s c) ((startRunItem cfg i w.store.db).carries f) (f .start)
  | stepped {s c v pc} (he : w.workers s = some ⟨i, .at v pc⟩) :
      Portion cfg f i w (.exec s c) ((stepRunItem cfg c i v w.store pc).2.carries f) (f (.at v pc))
  | died {s} : Portion cfg f i w (.crash s) 0 (weight (carries f i) (w.workers s))

theorem step_portion {l : Label σ η} (hs : step cfg w l = some w') (f : Phase → Nat) (i : ItemId) :
    ∃ gain loss, Moves (carries f i) w.workers w'.workers gain loss ∧
      Portion cfg f i w l gain loss := by
  have hch := step_workers hs
  generalize w'.workers = slots at hch
  cases hch with
  | same hl hb => exact ⟨0, 0, .same, .other (fun _ => takes_of_mover hl) (hb i)⟩
  | @died s => exact ⟨_, _, .update s none, .died⟩
  | @began s j l hl hidle =>
    have hm : Moves (carries f i) w.workers _ _ _ := .update s (some ⟨j, .start⟩)
    have ht : ∀ kind, takes kind i (w, l) = false := fun _ =>
      takes_of_mover (by rcases hl with rfl | rfl <;> rfl)
    have hb : begins i (w, l) = (j == i) := by rcases hl with rfl | rfl <;> rfl
    rw [hidle] at hm
    by_cases hji : j = i
    · subst hji
      simp only [carries, weight_some, weight_none, if_true] at hm
      exact ⟨_, _, hm, .began ht (by simpa using hb)⟩
    · simp only [carries, weight_some, weight_none, hji, if_false] at hm
      exact ⟨_, _, hm, .other ht (by simp [hb, hji])⟩
  | @moved s c e he =>
    obtain ⟨j, p⟩ := e
    have hm : Moves (carries f i) w.workers _ _ _ := .update s
      ((executeRunItem cfg c j w.store p).2.phase?.map fun p => ⟨j, p⟩)
    rw [weight_map, he] at hm
    by_cases hji : j = i
    · subst hji
      simp only [carries, weight_some, if_true] at hm
      cases p with
      | start => exact ⟨_, _, hm, .read he⟩
      | «at» v pc => exact ⟨_, _, hm, .stepped he⟩
    · simp only [carries, weight_some, hji, if_false] at hm
      refine ⟨_, _, hm, .other (fun kind => ?_) rfl⟩
      cases p with
      | start => exact takes_start he
      | «at» v pc => rw [takes_exec he]; simp [hji]

section Accounts

variable {tr : List (World σ η × Label σ η)} {i : ItemId} {f : Phase → Nat} {a b : Nat}

/-- **An account**: if a delivery brings what an execution starts with, and no step of an execution
spends or hands on more than it has or earns, all that is spent was brought or earned. -/
theorem account (h : Run (step cfg) World.init tr w) (spends earns : Pc → Bool) (hbegin : f .start ≤ b)
    (hstart : ∀ db, (startRunItem cfg i db).carries f ≤ f .start)
    (hstep : ∀ tr (u : World σ η) s c v pc, Run (step cfg) World.init tr u →
      u.workers s = some ⟨i, .at v pc⟩ →
        a * (spends pc).toNat + (stepRunItem cfg c i v u.store pc).2.carries f ≤
          f (.at v pc) + (earns pc).toNat) :
    ∃ n, Weigh (carries f i) w.workers n ∧
      a * tr.countP (takes spends i) + n ≤
        tr.countP (takes earns i) + b * tr.countP (begins i) := by
  refine h.account World.workers (fun tr _ => a * tr.countP (takes spends i))
    (fun tr _ => tr.countP (takes earns i) + b * tr.countP (begins i)) (carries f i) (by simp)
    (fun _ => rfl) ?_
  intro tr u l u' hrun hs
  obtain ⟨gain, loss, hm, hp⟩ := step_portion hs f i
  refine ⟨gain, loss, hm, ?_⟩
  simp only [countP_snoc, Nat.mul_add]
  cases hp with
  | other ht hb | began ht hb =>
    simp only [ht, hb, Bool.toNat_false, Bool.toNat_true, Nat.mul_zero]
    omega
  | @died s =>
    have hmover : u.mover (.crash s : Label σ η) = none := rfl
    have hb : begins i (u, (.crash s : Label σ η)) = false := rfl
    simp only [takes_of_mover hmover, hb, Bool.toNat_false, Nat.mul_zero]
    omega
  | @read s c he =>
    have hb : begins i (u, (.exec s c : Label σ η)) = false := rfl
    have := hstart u.store.db
    simp only [takes_start he, hb, Bool.toNat_false, Nat.mul_zero]
    omega
  | @stepped s c v pc he =>
    have hb : begins i (u, (.exec s c : Label σ η)) = false := rfl
    have := hstep tr u s c v pc hrun he
    simp only [takes_exec he, hb, beq_self_eq_true, Bool.true_and, Bool.toNat_false, Nat.mul_zero]
    omega

/-- The same with nothing lost: no worker dies, and every step hands on exactly what it has. -/
theorem balance (h : Run (step cfg) World.init tr w) (spends earns : Pc → Bool)
    (hok : Along (fun _ l => ∀ s, l ≠ .crash s) tr)
    (hbegin : f .start = 0) (hstart : ∀ db, (startRunItem cfg i db).carries f = 0)
    (hstep : ∀ (u : World σ η) c v pc,
      (spends pc).toNat + (stepRunItem cfg c i v u.store pc).2.carries f =
        f (.at v pc) + (earns pc).toNat) :
    ∃ n, Weigh (carries f i) w.workers n ∧
      tr.countP (takes spends i) + n = tr.countP (takes earns i) := by
  refine h.balance World.workers (fun tr _ => tr.countP (takes spends i))
    (fun tr _ => tr.countP (takes earns i)) (carries f i) hok rfl (fun _ => rfl) ?_
  intro tr u l u' hrun hl hs
  obtain ⟨gain, loss, hm, hp⟩ := step_portion hs f i
  refine ⟨gain, loss, hm, ?_⟩
  simp only [countP_snoc]
  cases hp with
  | other ht hb | began ht hb =>
    simp only [ht, hbegin, Bool.toNat_false]
    omega
  | @died s => exact absurd rfl (hl s)
  | @read s c he =>
    simp only [takes_start he, hstart, hbegin, Bool.toNat_false]
    omega
  | @stepped s c v pc he =>
    have := hstep u c v pc
    simp only [takes_exec he, beq_self_eq_true, Bool.true_and]
    omega

end Accounts

/-- The attempt an execution is at. -/
def Pc.attempt : Pc → Option Nat
  | .markRunning a | .complete a => some a
  | _ => none

theorem nextAttempt_attempt {retry : RetryConfig} {a b : Nat} {e : String}
    (h : (nextAttempt retry a e).attempt = some b) : b = a ∧ a ≤ retry.maxAttempts := by
  rw [nextAttempt] at h
  split at h
  · exact ⟨(Option.some.inj h).symm, ‹_›⟩
  · exact absurd h (by simp [Pc.attempt])

/-- The loop makes no attempt behind the last. -/
theorem attempt_le {tr : List (World σ η × Label σ η)} (h : Run (step cfg) World.init tr w) :
    ∀ s i v pc a, w.workers s = some ⟨i, .at v pc⟩ → pc.attempt = some a →
      1 ≤ a ∧ a ≤ cfg.retry.maxAttempts := by
  induction h with
  | nil => exact fun s i v pc a he => absurd he (by simp [World.init])
  | snoc _ hs ih =>
    intro s i v pc a he ha
    cases step_at hs he with
    | stayed hw _ => exact ih s i v pc a hw ha
    | started _ _ _ _ _ _ hcase =>
      rcases hcase with ⟨rfl, -⟩ | ⟨rfl, -⟩ | ⟨rfl, -⟩
      · exact absurd ha (by simp [Pc.attempt])
      · exact absurd ha (by simp [Pc.attempt])
      · obtain ⟨rfl, hle⟩ := nextAttempt_attempt ha
        exact ⟨Nat.le_refl 1, hle⟩
    | stepped hw hstep =>
      cases hstep with
      | marked =>
        obtain rfl := Option.some.inj ha
        exact ih s i v _ _ hw rfl
      | retry _ hle =>
        obtain rfl := Option.some.inj ha
        exact ⟨Nat.le_add_left 1 _, hle⟩
      | _ => exact absurd ha (by simp [Pc.attempt])

theorem skips_carry {f : Phase → Nat} {b : Nat} (v : Loaded) (hc : f (.at v .skipCancelled) = 0)
    (ha : f (.at v .skipAborted) = 0) :
    f (.at v .skipCancelled) ≤ b ∧ f (.at v .skipAborted) ≤ b := by
  simp [hc, ha]

/-- The account of the attempts made. -/
theorem made_account {tr : List (World σ η × Label σ η)} (h : Run (step cfg) World.init tr w)
    (i : ItemId) : ∃ n, Weigh (carries (Phase.made cfg.retry.maxAttempts) i) w.workers n ∧
      cfg.retry.maxAttempts * tr.countP (takes Pc.givesUp i) + n ≤ w.attempts i := by
  rw [attempts_eq h]
  have hacc := account h Pc.givesUp Pc.marks (i := i) (f := Phase.made cfg.retry.maxAttempts)
    (a := cfg.retry.maxAttempts) (b := 0) (Nat.le_refl 0)
    (fun db => startRunItem_carries db (fun v => skips_carry v rfl rfl)
      fun v => nextAttempt_made cfg.retry 0 _ v)
    fun _ _ _ _ _ _ _ _ => made_step
  simpa using hacc

theorem noticing_start (i : ItemId) (db : Db) :
    (startRunItem cfg i db).carries Phase.noticing = 0 := by
  refine Nat.le_zero.mp (startRunItem_carries db (fun v => skips_carry v rfl rfl) fun v => ?_)
  rw [nextAttempt]
  split <;> exact Nat.le_refl 0

/-- **Retries stay within their budget.**  In every schedule, with redeliveries, deaths of workers,
cancels, aborts and replays: an item is given up at most once for every `max_attempts` counted
attempts, the attempts counted are at most `max_attempts` for each time a worker was given the item,
the provider is not called oftener than counted, and no notice is published without a dead letter. -/
theorem retry_budget {tr : List (World σ η × Label σ η)} (h : Run (step cfg) World.init tr w)
    (i : ItemId) :
    cfg.retry.maxAttempts * tr.countP (takes Pc.givesUp i) ≤ w.attempts i ∧
      w.attempts i ≤ cfg.retry.maxAttempts * tr.countP (begins i) ∧
      tr.countP (takes Pc.calls i) ≤ w.attempts i ∧
      w.store.dlq.count i ≤ tr.countP (takes Pc.givesUp i) := by
  obtain ⟨_, -, hmade⟩ := made_account h i
  rw [attempts_eq h] at hmade ⊢
  rw [dlq_eq h]
  obtain ⟨_, -, hleft⟩ := account h Pc.marks (fun _ => false) (i := i)
    (f := Phase.left cfg.retry.maxAttempts) (a := 1) (b := cfg.retry.maxAttempts) (Nat.le_refl _)
    (fun db => startRunItem_carries db (fun v => skips_carry v rfl rfl)
      fun v => nextAttempt_left cfg.retry 0 _ v)
    fun tr u s c v pc hrun he => by
      rw [Nat.one_mul, Bool.toNat_false, Nat.add_zero]
      exact left_step fun a hpc => (attempt_le hrun s i v pc a he (hpc ▸ rfl)).2
  obtain ⟨_, -, hcalling⟩ := account h Pc.calls Pc.marks (i := i) (f := Phase.calling) (a := 1)
    (b := 0) (Nat.le_refl 0)
    (fun db => startRunItem_carries db (fun v => skips_carry v rfl rfl) fun v => by
      rw [nextAttempt]
      split <;> exact Nat.le_refl 0)
    fun _ _ _ _ _ _ _ _ => by
      rw [Nat.one_mul]
      exact calling_step
  obtain ⟨_, -, hnoticing⟩ := account h Pc.notices Pc.givesUp (i := i) (f := Phase.noticing)
    (a := 1) (b := 0) (Nat.le_refl 0)
    (fun db => (noticing_start i db).le)
    fun _ _ _ _ _ _ _ _ => by
      rw [Nat.one_mul]
      exact noticing_step.le
  have hnever : tr.countP (takes (fun _ => false) i) = 0 := by
    rw [List.countP_eq_zero]
    rintro ⟨u, l⟩ _
    rw [takes_iff]
    rintro ⟨_, _, _, _, -, -, hk⟩
    exact absurd hk (by simp)
  refine ⟨?_, ?_, ?_, ?_⟩ <;> omega

/-- The provider declines both attempts. -/
def givenUp (s : σ) (h : η) : List (Label σ η) :=
  launch h 1 ++ [.deliver s 0] ++ execs s declines 8

/-- The item is given up and replayed, and the worker dies behind the third attempt. -/
theorem retry_budget_small : ∃ (tr : List (World (Fin 1) (Fin 1) × Label (Fin 1) (Fin 1)))
    (w : World (Fin 1) (Fin 1)), Run (step (smallConfig 1 2 5000000)) World.init tr w ∧
      w.attempts 0 = 3 ∧ 2 * tr.countP (takes Pc.givesUp 0) ≤ 3 ∧
      3 ≤ 2 * tr.countP (begins 0) ∧ tr.countP (takes Pc.calls 0) ≤ 3 := by
  obtain ⟨tr, w, hrun, -, htest⟩ := exists_run_of_play (step (smallConfig 1 2 5000000))
    (World.init : World (Fin 1) (Fin 1)) (fun _ _ => true)
    (givenUp 0 0 ++ [.replay 0 0] ++ List.replicate 3 (.handler 0 0) ++ [.deliver 0 0] ++
      execs 0 declines 2 ++ [.crash 0])
    (fun _ w => w.attempts 0 == 3) (by decide)
  obtain ⟨hmade, hleft, hcalls, -⟩ := retry_budget hrun 0
  rw [beq_iff_eq.mp htest] at hmade hleft hcalls
  exact ⟨tr, w, hrun, beq_iff_eq.mp htest, hmade, hleft, hcalls⟩

/-- **Every dead letter is announced once.**  While no worker dies, an item has as many notices on
`evals.dlq` as it was given up, as soon as no execution of it stands before its publication. -/
theorem dead_letters_noticed {tr : List (World σ η × Label σ η)}
    (h : Run (step cfg) World.init tr w) (hok : Along (fun _ l => ∀ s, l ≠ .crash s) tr) {i : ItemId}
    (hquiet : ∀ s v, w.workers s ≠ some ⟨i, .at v .publishDeadLetter⟩) :
    w.store.dlq.count i = tr.countP (takes Pc.givesUp i) := by
  obtain ⟨n, hn, heq⟩ := balance h Pc.notices Pc.givesUp hok (i := i) (f := Phase.noticing)
    rfl (noticing_start i) fun _ _ _ _ => noticing_step
  have hzero : n = 0 := by
    refine hn.eq_zero fun s => ?_
    cases he : w.workers s with
    | none => rfl
    | some e =>
      obtain ⟨j, p⟩ := e
      by_cases hji : j = i
      · subst hji
        cases p with
        | start => simp [carries, Phase.noticing]
        | «at» v pc =>
          cases pc with
          | publishDeadLetter => exact absurd he (hquiet s v)
          | _ => simp [carries, Phase.noticing, Pc.notices]
      · simp [carries, hji]
  rw [dlq_eq h]
  omega

theorem dead_letters_noticed_small :
    ∃ (tr : List (World (Fin 1) (Fin 1) × Label (Fin 1) (Fin 1))) (w : World (Fin 1) (Fin 1)),
      Run (step (smallConfig 1 2 5000000)) World.init tr w ∧ w.store.dlq = [0] ∧
        tr.countP (takes Pc.givesUp 0) = 1 := by
  obtain ⟨tr, w, hrun, hok, htest⟩ := exists_run_of_play (step (smallConfig 1 2 5000000))
    (World.init : World (Fin 1) (Fin 1)) (fun _ l => l.isReliable) (givenUp 0 0)
    (fun _ w => w.store.dlq == [0] && decide (∀ s, w.workers s = none)) (by decide)
  simp only [Bool.and_eq_true, beq_iff_eq, decide_eq_true_eq] at htest
  obtain ⟨hdlq, hidle⟩ := htest
  have hspared : Along (fun _ l => ∀ s, l ≠ .crash s) tr := hok.mono fun _ l hl s hc => by
    rw [hc] at hl
    exact absurd hl (by simp [Label.isReliable])
  have hcount := dead_letters_noticed hrun hspared (i := 0) fun s v => by simp [hidle s]
  rw [hdlq] at hcount
  exact ⟨tr, w, hrun, hdlq, hcount.symm⟩

/-! ## 5. The list of dead letters -/

structure DeadLetterRead where
  runItemId : ItemId
  evalRunId : RunId
  taskId : TaskId
  modelEndpointId : EndpointId
  attemptCount : Nat
  error : Option String
  createdAt : Timestamp
  deriving DecidableEq

/-- `list_dead_letters`.  The items of a run are created in one transaction with it, so that they
have its `created_at` and `ORDER BY` leaves their order to the database. -/
def listDeadLetters (order : Sql.TieOrder (ItemId × RunItem)) (db : Db) (r : RunId) :
    Except HttpError (List DeadLetterRead) :=
  match db.runs.get r with
  | none => .error ⟨404, "Eval run not found"⟩
  | some run =>
    .ok ((order.rows ((itemsOfRun db r).filter fun x => x.2.status == .deadLettered)).map fun x =>
      { runItemId := x.1, evalRunId := x.2.evalRunId, taskId := x.2.taskId
        modelEndpointId := x.2.modelEndpointId, attemptCount := x.2.attemptCount, error := x.2.error
        createdAt := run.createdAt })

/-- The checks of `replay_run_item`, when both find one state. -/
def replayChecks (db : Db) (i : ItemId) : Except HttpError RunId := do
  let r ← replayReadItem db i
  replayReadRun db r
  return r

/-- A replay is accepted exactly for the dead letters of a run that is not cancelled. -/
theorem replayChecks_iff {db : Db} {i : ItemId} {r : RunId} :
    replayChecks db i = .ok r ↔
      replayReadItem db i = .ok r ∧ (db.runs.get r).map EvalRun.status ≠ some .cancelled := by
  cases hitem : replayReadItem db i with
  | error e => simp [replayChecks, hitem, bind, Except.bind]
  | ok r' =>
    by_cases hc : (db.runs.get r').map EvalRun.status = some .cancelled
    · have hrun : replayReadRun db r' = .error ⟨409, "eval run is cancelled"⟩ := if_pos hc
      simp only [replayChecks, hitem, hrun, bind, Except.bind, Except.ok.injEq, reduceCtorEq,
        false_iff]
      rintro ⟨rfl, hne⟩
      exact hne hc
    · have hrun : replayReadRun db r' = .ok () := if_neg hc
      simp only [replayChecks, hitem, hrun, bind, Except.bind, pure, Except.pure, Except.ok.injEq]
      exact ⟨fun h => ⟨h, h ▸ hc⟩, fun h => h.1⟩

/-- The error of the last attempt: what the provider said, unless there was none to be made. -/
def LastError (cfg : Config) (tr : List (World σ η × Label σ η)) (i : ItemId) (e : String) : Prop :=
  if cfg.retry.maxAttempts = 0 then e = "None"
  else ∃ u s c v, (u, .exec s c) ∈ tr ∧
    u.workers s = some ⟨i, .at v (.complete cfg.retry.maxAttempts)⟩ ∧ c.completion = .retryable e

/-- The text a dead letter carries. -/
def exhausted (cfg : Config) (e : String) : String :=
  let n := cfg.retry.maxAttempts
  s!"exhausted {n} attempts: {e}"

/-- What is known of an item that was given up with a text. -/
structure Explained (cfg : Config) (tr : List (World σ η × Label σ η)) (i : ItemId)
    (attempts : Nat) (error : Option String) : Prop where
  attempts : cfg.retry.maxAttempts ≤ attempts
  error : ∃ e, error = some (exhausted cfg e) ∧ LastError cfg tr i e

theorem LastError.snoc {σ η : Type} {tr : List (World σ η × Label σ η)} {i : ItemId} {e : String}
    (h : LastError cfg tr i e) (p : World σ η × Label σ η) : LastError cfg (tr ++ [p]) i e := by
  unfold LastError at h ⊢
  split
  · rename_i hz
    rwa [if_pos hz] at h
  · rename_i hz
    rw [if_neg hz] at h
    obtain ⟨u, s, c, v, hmem, h⟩ := h
    exact ⟨u, s, c, v, List.mem_append_left _ hmem, h⟩

theorem nextAttempt_gaveUp {retry : RetryConfig} {a : Nat} {e t : String}
    (h : nextAttempt retry a e = .markDeadLettered t) :
    retry.maxAttempts < a ∧ t = (let n := retry.maxAttempts; s!"exhausted {n} attempts: {e}") := by
  rw [nextAttempt] at h
  split at h
  · exact absurd h (by simp)
  · exact ⟨by omega, (Pc.markDeadLettered.inj h).symm⟩

/-- An execution that gives its item up knows why. -/
theorem givingUp_explained {tr : List (World σ η × Label σ η)} (h : Run (step cfg) World.init tr w) :
    ∀ s i v t, w.workers s = some ⟨i, .at v (.markDeadLettered t)⟩ →
      Explained cfg tr i (w.attempts i) (some t) := by
  intro s i v t he
  refine ⟨?_, ?_⟩
  · -- it carries all its attempts
    obtain ⟨n, hn, hle⟩ := made_account h i
    have hw := hn.le s
    rw [he, weight_some, carries, if_pos rfl] at hw
    have : cfg.retry.maxAttempts ≤ n := hw
    omega
  · induction h generalizing s i v t with
    | nil => exact absurd he (by simp [World.init])
    | @snoc tr u l u' hrun hs ih =>
      cases step_at hs he with
      | stayed hw _ =>
        obtain ⟨e, ht, hlast⟩ := ih s i v t hw
        exact ⟨e, ht, hlast.snoc _⟩
      | started _ _ _ _ _ _ hcase =>
        rcases hcase with ⟨h, -⟩ | ⟨h, -⟩ | ⟨h, -⟩
        · exact absurd h (by simp)
        · exact absurd h (by simp)
        · obtain ⟨hlt, rfl⟩ := nextAttempt_gaveUp h.symm
          refine ⟨"None", rfl, ?_⟩
          rw [LastError, if_pos (by omega)]
      | @stepped c pc hw hstep =>
        cases hstep with
        | @exhausted a e _ hc _ hgave =>
          obtain ⟨hlt, rfl⟩ := nextAttempt_gaveUp hgave
          obtain ⟨hone, hle⟩ := attempt_le hrun s i v _ a hw rfl
          refine ⟨e, rfl, ?_⟩
          obtain rfl : a = cfg.retry.maxAttempts := by omega
          rw [LastError, if_neg (by omega)]
          exact ⟨u, s, c, v, by simp, hw, hc⟩

/-- A dead letter says what happened. -/
theorem deadLetter_explained {tr : List (World σ η × Label σ η)}
    (h : Run (step cfg) World.init tr w) :
    ∀ i row, w.store.db.items.get i = some row → row.status = .deadLettered →
      Explained cfg tr i row.attemptCount row.error := by
  induction h with
  | nil => exact fun i row hrow => absurd hrow (by simp [World.init, Db.empty])
  | @snoc tr u l u' hrun hs ih =>
    intro i row' hrow' hd
    cases hrow : u.store.db.items.get i with
    | none =>
      obtain ⟨_, _, _, _, _, -, -, -, p, rfl, -⟩ := step_item_new hs hrow' hrow
      exact absurd hd (by simp)
    | some row =>
      cases itemChange hs hrow hrow' with
      | keep =>
        obtain ⟨hle, e, herr, hlast⟩ := ih i _ hrow hd
        exact ⟨hle, e, herr, hlast.snoc _⟩
      | @markDeadLettered s c v t he =>
        obtain ⟨hle, e, herr, hlast⟩ := givingUp_explained hrun s i v t he
        have hcount : u.attempts i = row.attemptCount := by simp [World.attempts, hrow]
        exact ⟨hcount ▸ hle, e, herr, hlast.snoc _⟩
      | finalise => exact absurd hd (by simp [finalisedRow])
      | _ => exact absurd hd (by simp)

section Listed

variable {order : Sql.TieOrder (ItemId × RunItem)} {db : Db} {r : RunId}
  {dead : List DeadLetterRead}

/-- An entry is read off a dead-lettered row of the run. -/
theorem mem_deadLetters {x : DeadLetterRead} (hd : listDeadLetters order db r = .ok dead)
    (hx : x ∈ dead) : ∃ row, db.items.get x.runItemId = some row ∧ row.evalRunId = r ∧
      row.status = .deadLettered ∧ x.attemptCount = row.attemptCount ∧ x.error = row.error := by
  rw [listDeadLetters] at hd
  split at hd
  · cases hd
  obtain rfl := Except.ok.inj hd
  obtain ⟨⟨i, row⟩, hmem, rfl⟩ := List.mem_map.mp hx
  rw [(order.perm _).mem_iff, itemsOfRun, List.mem_filter, List.mem_filter, Table.mem_rows_iff,
    beq_iff_eq, beq_iff_eq] at hmem
  exact ⟨row, hmem.1.1, hmem.1.2, hmem.2, rfl, rfl⟩

theorem nodup_deadLetters (hd : listDeadLetters order db r = .ok dead) :
    (dead.map (·.runItemId)).Nodup := by
  rw [listDeadLetters] at hd
  split at hd
  · cases hd
  obtain rfl := Except.ok.inj hd
  rw [List.map_map]
  refine ((order.perm _).map Prod.fst).nodup_iff.mpr ?_
  exact db.items.nodup.sublist ((List.filter_sublist.trans List.filter_sublist).map _)

/-- The list has what the first check of a replay lets pass. -/
theorem listed_iff (hd : listDeadLetters order db r = .ok dead) (i : ItemId) :
    i ∈ dead.map (·.runItemId) ↔ replayReadItem db i = .ok r := by
  constructor
  · intro hi
    obtain ⟨x, hx, rfl⟩ := List.mem_map.mp hi
    obtain ⟨row, hrow, hr, hst, -⟩ := mem_deadLetters hd hx
    simp [replayReadItem, hrow, hst, hr]
  · intro hok
    obtain ⟨row, hrow, hst, hr⟩ := replayReadItem_ok hok
    rw [listDeadLetters] at hd
    split at hd
    · cases hd
    obtain rfl := Except.ok.inj hd
    rw [List.map_map]
    refine List.mem_map.mpr ⟨(i, row), ?_, rfl⟩
    rw [(order.perm _).mem_iff, itemsOfRun, List.mem_filter, List.mem_filter, Table.mem_rows_iff,
      beq_iff_eq, beq_iff_eq]
    exact ⟨⟨hrow, hr⟩, hst⟩

end Listed

/-- **The list of dead letters tells the truth.**  On every run of the system it has every dead
letter of the run, once, and nothing else: a replay is accepted for these items and no other if the
run is not cancelled, and for none of them if it is.  Each has been tried `max_attempts` times at
least, and its error is what the provider said to the last attempt of the execution that gave it up. -/
theorem dead_letters_explained (order : Sql.TieOrder (ItemId × RunItem))
    {tr : List (World σ η × Label σ η)} (h : Run (step cfg) World.init tr w) {r : RunId}
    {dead : List DeadLetterRead} (hd : listDeadLetters order w.store.db r = .ok dead) :
    (dead.map (·.runItemId)).Nodup ∧
      (∀ i, i ∈ dead.map (·.runItemId) ↔ replayReadItem w.store.db i = .ok r) ∧
      (w.runStatusOf r ≠ some .cancelled →
        ∀ i, i ∈ dead.map (·.runItemId) ↔ replayChecks w.store.db i = .ok r) ∧
      (w.runStatusOf r = some .cancelled → ∀ i ∈ dead.map (·.runItemId),
        replayChecks w.store.db i = .error ⟨409, "eval run is cancelled"⟩) ∧
      ∀ x ∈ dead, Explained cfg tr x.runItemId x.attemptCount x.error := by
  refine ⟨nodup_deadLetters hd, listed_iff hd, fun hlive i => ?_, fun hc i hi => ?_,
    fun x hx => ?_⟩
  · rw [listed_iff hd, replayChecks_iff]
    exact (and_iff_left hlive).symm
  · have hrun : replayReadRun w.store.db r = .error ⟨409, "eval run is cancelled"⟩ := if_pos hc
    rw [replayChecks, (listed_iff hd i).mp hi]
    simp only [bind, Except.bind, hrun]
  · obtain ⟨row, hrow, -, hst, hattempts, herror⟩ := mem_deadLetters hd hx
    rw [hattempts, herror]
    exact deadLetter_explained h _ _ hrow hst

/-- The dead letter says `overloaded`. -/
theorem dead_letters_explained_small : ∃ (w : World (Fin 1) (Fin 1)) (x : DeadLetterRead),
    listDeadLetters ⟨id, fun _ => .refl _⟩ w.store.db 0 = .ok [x] ∧ 2 ≤ x.attemptCount ∧
      replayChecks w.store.db x.runItemId = .ok 0 := by
  obtain ⟨tr, w, hrun, -, htest⟩ := exists_run_of_play (step (smallConfig 1 2 5000000))
    (World.init : World (Fin 1) (Fin 1)) (fun _ _ => true) (givenUp 0 0)
    (fun _ w => decide (listDeadLetters ⟨id, fun _ => .refl _⟩ w.store.db 0 =
      .ok [⟨0, 0, 0, 0, 2, some "exhausted 2 attempts: overloaded", 0⟩] ∧
      w.runStatusOf 0 ≠ some .cancelled)) (by decide)
  obtain ⟨hlist, hlive⟩ := of_decide_eq_true htest
  obtain ⟨-, -, hreplay, -, hall⟩ := dead_letters_explained _ hrun hlist
  exact ⟨w, _, hlist, (hall _ (by simp)).attempts, (hreplay hlive 0).mp (by simp)⟩

end EvalHarness
