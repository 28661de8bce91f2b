/-
# Runs of a transition function, and the rules for proving things about them

A system is a partial function `step : S → L → Option S`: the label says which party moves and
what its environment answers, `none` that the move is not possible.  An interleaving is then a
list of labels, and `Run step s₀ tr s` is one that was taken.  The trace `tr` keeps the state
BEFORE each label, so that an event ("the guarded update hit its row") is a predicate of one
entry of the trace and a restriction on the scheduler is a predicate of the trace.

The two rules every safety proof of the development goes through are `Run.invariant` (the
restriction reads the current state only) and `Run.induct` (it also reads what has happened).
-/
import Mathlib.Data.List.Basic
import Mathlib.Data.List.Induction
import Mathlib.Tactic.Common

namespace Lts

variable {S L : Type}

/-! ## 1. Runs -/

/-- `Run step s₀ tr s`: the transitions of `tr`, taken one after the other from `s₀`, end in `s`. -/
inductive Run (step : S → L → Option S) (s₀ : S) : List (S × L) → S → Prop
  | nil : Run step s₀ [] s₀
  | snoc {tr : List (S × L)} {s : S} {l : L} {s' : S} :
      Run step s₀ tr s → step s l = some s' → Run step s₀ (tr ++ [(s, l)]) s'

/-- Every transition of the trace is one the scheduler may take in its state. -/
def Along (ok : S → L → Prop) (tr : List (S × L)) : Prop := ∀ p ∈ tr, ok p.1 p.2

/-- Every transition of the trace is one the scheduler may take after what came before it. -/
def Follows (ok : List (S × L) → S → L → Prop) (tr : List (S × L)) : Prop :=
  ∀ a p b, tr = a ++ p :: b → ok a p.1 p.2

variable {step : S → L → Option S} {s₀ s₁ s₂ : S} {tr tr' : List (S × L)}

theorem Along.append {ok : S → L → Prop} :
    Along ok (tr ++ tr') ↔ Along ok tr ∧ Along ok tr' := by
  simp only [Along, List.mem_append]
  constructor
  · intro h
    exact ⟨fun p hp => h p (Or.inl hp), fun p hp => h p (Or.inr hp)⟩
  · rintro ⟨h, h'⟩ p (hp | hp)
    · exact h p hp
    · exact h' p hp

theorem Along.snoc {ok : S → L → Prop} {s : S} {l : L} :
    Along ok (tr ++ [(s, l)]) ↔ Along ok tr ∧ ok s l := by
  rw [Along.append]
  exact and_congr_right fun _ => by simp [Along]

theorem Along.mono {ok ok' : S → L → Prop} (h : Along ok tr) (hm : ∀ s l, ok s l → ok' s l) :
    Along ok' tr := fun p hp => hm _ _ (h p hp)

theorem Along.and {ok ok' : S → L → Prop} (h : Along ok tr) (h' : Along ok' tr) :
    Along (fun s l => ok s l ∧ ok' s l) tr := fun p hp => ⟨h p hp, h' p hp⟩

theorem Follows.of_append {ok : List (S × L) → S → L → Prop} (h : Follows ok (tr ++ tr')) :
    Follows ok tr := by
  intro a p b hab
  refine h a p (b ++ tr') ?_
  rw [hab, List.append_assoc, List.cons_append]

theorem Follows.snoc {ok : List (S × L) → S → L → Prop} {s : S} {l : L}
    (h : Follows ok tr) (hl : ok tr s l) : Follows ok (tr ++ [(s, l)]) := by
  intro a p b hab
  rcases List.eq_nil_or_concat b with rfl | ⟨b', q, rfl⟩
  · obtain ⟨rfl, hp⟩ := List.append_inj' hab rfl
    obtain rfl := (List.cons.inj hp).1
    exact hl
  · rw [List.concat_eq_append, ← List.cons_append, ← List.append_assoc] at hab
    exact h a p b' (List.append_inj' hab rfl).1

/-- A restriction that reads the current state only is one that could read the past. -/
theorem Along.follows {ok : S → L → Prop} (h : Along ok tr) : Follows (fun _ => ok) tr := by
  rintro a p b rfl
  exact h p (by simp)

/-- A run after a run is a run. -/
theorem Run.append (h : Run step s₀ tr s₁) (h' : Run step s₁ tr' s₂) :
    Run step s₀ (tr ++ tr') s₂ := by
  induction h' with
  | nil => simpa using h
  | snoc _ hs ih =>
    rw [← List.append_assoc]
    exact Run.snoc ih hs

theorem Run.cons {l : L} (hs : step s₀ l = some s₁) (h : Run step s₁ tr s₂) :
    Run step s₀ ((s₀, l) :: tr) s₂ :=
  Run.append (Run.snoc Run.nil hs) h

theorem Run.snoc_inv {s : S} {l : L} (h : Run step s₀ (tr ++ [(s, l)]) s₁) :
    Run step s₀ tr s ∧ step s l = some s₁ := by
  generalize hn : tr ++ [(s, l)] = tr' at h
  cases h with
  | nil => simp at hn
  | snoc h hs =>
    obtain ⟨h1, h2⟩ := List.append_inj' hn rfl
    simp only [List.cons.injEq, Prod.mk.injEq, and_true] at h2
    obtain ⟨rfl, rfl⟩ := h2
    subst h1
    exact ⟨h, hs⟩

/-- A run can be cut anywhere. -/
theorem Run.split : ∀ {tr' : List (S × L)} {s₂ : S}, Run step s₀ (tr ++ tr') s₂ →
    ∃ s, Run step s₀ tr s ∧ Run step s tr' s₂ := by
  intro tr'
  induction tr' using List.reverseRecOn with
  | nil =>
    intro s₂ h
    exact ⟨s₂, by simpa using h, Run.nil⟩
  | append_singleton tr' p ih =>
    intro s₂ h
    obtain ⟨s, l⟩ := p
    rw [← List.append_assoc] at h
    obtain ⟨h1, hs⟩ := h.snoc_inv
    obtain ⟨m, hm, hm'⟩ := ih h1
    exact ⟨m, hm, Run.snoc hm' hs⟩

theorem Run.eq_of_nil (h : Run step s₀ tr s₁) (htr : tr = []) : s₁ = s₀ := by
  cases h with
  | nil => rfl
  | snoc _ _ => exact absurd htr (by simp)

/-- The entry of a run at one place: the state recorded there is the one the prefix reached. -/
theorem Run.at {p : S × L} (h : Run step s₀ (tr ++ p :: tr') s₂) :
    Run step s₀ tr p.1 ∧ ∃ s, step p.1 p.2 = some s ∧ Run step s tr' s₂ := by
  have h' : Run step s₀ ((tr ++ [p]) ++ tr') s₂ := by simpa using h
  obtain ⟨s, h1, h2⟩ := h'.split
  obtain ⟨h3, h4⟩ := (show Run step s₀ (tr ++ [(p.1, p.2)]) s from h1).snoc_inv
  exact ⟨h3, s, h4, h2⟩

/-! ## 2. The two induction rules -/

/-- **Invariants.**  What every permitted step keeps holds wherever a run of permitted steps
gets to. -/
theorem Run.invariant {ok : S → L → Prop} {I : S → Prop}
    (hstep : ∀ s l s', I s → ok s l → step s l = some s' → I s')
    (h : Run step s₀ tr s₁) (hok : Along ok tr) (h0 : I s₀) : I s₁ := by
  induction h with
  | nil => exact h0
  | snoc _ hs ih =>
    obtain ⟨hpre, hlast⟩ := Along.snoc.mp hok
    exact hstep _ _ _ (ih hpre) hlast hs

/-- **Invariants that remember.**  The same with the trace as a second argument, both of the
invariant and of the restriction. -/
theorem Run.induct {ok : List (S × L) → S → L → Prop} {J : List (S × L) → S → Prop} (h0 : J [] s₀)
    (hstep : ∀ tr s l s', J tr s → ok tr s l → step s l = some s' → J (tr ++ [(s, l)]) s')
    (h : Run step s₀ tr s₁) (hok : Follows ok tr) : J tr s₁ := by
  induction h with
  | nil => exact h0
  | snoc _ hs ih => exact hstep _ _ _ _ (ih hok.of_append) (hok _ _ [] rfl) hs

/-- A property that steps never destroy holds in every later state. -/
theorem Run.stable {I : S → Prop} (hstep : ∀ s l s', I s → step s l = some s' → I s')
    (h : Run step s₀ tr s₁) (h0 : I s₀) : I s₁ :=
  h.invariant (fun s l s' hi _ => hstep s l s' hi)
    (show Along (fun _ _ => True) tr from fun _ _ => trivial) h0

/-- **Ranking.**  If every permitted step costs one of what is left, a run is no longer than what
there was at its start. -/
theorem Run.length_le {ok : S → L → Prop} (rank : S → Nat)
    (hstep : ∀ s l s', ok s l → step s l = some s' → rank s' < rank s)
    (h : Run step s₀ tr s₁) (hok : Along ok tr) : tr.length + rank s₁ ≤ rank s₀ := by
  induction h with
  | nil => simp
  | snoc _ hs ih =>
    obtain ⟨hpre, hlast⟩ := Along.snoc.mp hok
    have := ih hpre
    have := hstep _ _ _ hlast hs
    simp only [List.length_append, List.length_singleton]
    omega

/-- **Finishing.**  If from every state that is not final a permitted step costs some of what is
left, then some run of permitted steps ends in a final state. -/
theorem Run.exists_final {ok : List (S × L) → S → L → Prop} {final : S → Prop} (rank : S → Nat)
    (hstep : ∀ tr s, ¬ final s → ∃ l s', ok tr s l ∧ step s l = some s' ∧ rank s' < rank s) :
    ∃ tr s, Run step s₀ tr s ∧ Follows ok tr ∧ final s := by
  -- by induction on what is left after the part of the run there is already
  have hrest : ∀ n tr s, rank s ≤ n → Run step s₀ tr s → Follows ok tr →
      ∃ tr s, Run step s₀ tr s ∧ Follows ok tr ∧ final s := by
    intro n
    induction n with
    | zero =>
      intro tr s hn hrun hok
      by_cases hs : final s
      · exact ⟨tr, s, hrun, hok, hs⟩
      · obtain ⟨l, s', -, -, hlt⟩ := hstep tr s hs
        omega
    | succ n ih =>
      intro tr s hn hrun hok
      by_cases hs : final s
      · exact ⟨tr, s, hrun, hok, hs⟩
      · obtain ⟨l, s', hl, hnext, hlt⟩ := hstep tr s hs
        exact ih _ s' (by omega) (hrun.snoc hnext) (hok.snoc hl)
  exact hrest _ [] s₀ (Nat.le_refl _) .nil fun a p b hab => by simp at hab

/-! ## 3. One system inside another -/

/-- **Renamed steps.**  Where every step is one of another system under a name that may depend on the
state, a run is a run of that system. -/
theorem Run.relabel {L' : Type} {step' : S → L' → Option S} {f : S → L → L'}
    (hstep : ∀ s l, step s l = step' s (f s l)) (h : Run step s₀ tr s₁) :
    Run step' s₀ (tr.map fun x => (x.1, f x.1 x.2)) s₁ := by
  induction h with
  | nil => exact Run.nil
  | snoc _ hs ih =>
    rw [hstep] at hs
    rw [List.map_append]
    exact ih.snoc hs

/-- Where two systems agree on the steps taken, a run of one is a run of the other. -/
theorem Run.congr {step' : S → L → Option S} (h : Run step s₀ tr s₁)
    (hsame : Along (fun s l => step s l = step' s l) tr) : Run step' s₀ tr s₁ := by
  induction h with
  | nil => exact Run.nil
  | snoc _ hs ih =>
    obtain ⟨hpre, hlast⟩ := Along.snoc.mp hsame
    exact (ih hpre).snoc (hlast ▸ hs)

section Embedding

variable {S' L' : Type} {step' : S' → L' → Option S'} {f : S → S'} {g : L → L'}

/-- Where every step is matched, runs are. -/
theorem Run.map (hstep : ∀ s l, step' (f s) (g l) = (step s l).map f)
    (h : Run step s₀ tr s₁) :
    Run step' (f s₀) (tr.map fun x => (f x.1, g x.2)) (f s₁) := by
  induction h with
  | nil => exact Run.nil
  | snoc _ hs ih =>
    rw [List.map_append]
    refine ih.snoc ?_
    rw [hstep, hs]
    rfl

/-- A run whose labels are all matched is one of the smaller system. -/
theorem Run.of_map (hstep : ∀ s l, step' (f s) (g l) = (step s l).map f)
    {tr' : List (S' × L')} {z : S'} (h : Run step' (f s₀) tr' z)
    (hlab : ∀ x ∈ tr', ∃ l, x.2 = g l) :
    ∃ tr s, Run step s₀ tr s ∧ z = f s ∧ tr' = tr.map fun x => (f x.1, g x.2) := by
  induction h with
  | nil => exact ⟨[], s₀, Run.nil, rfl, rfl⟩
  | @snoc tr' z l' z' _ hs ih =>
    obtain ⟨tr, s, hrun, rfl, rfl⟩ := ih fun x hx => hlab x (by simp [hx])
    obtain ⟨l, hl⟩ := hlab (f s, l') (by simp)
    rw [show l' = g l from hl, hstep] at hs
    obtain ⟨s', hs', rfl⟩ := Option.map_eq_some_iff.mp hs
    exact ⟨tr ++ [(s, l)], s', hrun.snoc hs', rfl, by simp [show l' = g l from hl]⟩

/-- **The smaller system, whole**: its runs are the runs of the larger one whose labels it knows. -/
theorem Run.iff_of_map (hstep : ∀ s l, step' (f s) (g l) = (step s l).map f) {z₀ z : S'}
    {tr' : List (S' × L')} (h₀ : f s₀ = z₀) :
    (Run step' z₀ tr' z ∧ ∀ x ∈ tr', ∃ l, x.2 = g l) ↔
      ∃ tr s, Run step s₀ tr s ∧ z = f s ∧ tr' = tr.map fun x => (f x.1, g x.2) := by
  subst h₀
  constructor
  · rintro ⟨hrun, hlab⟩
    exact Run.of_map hstep hrun hlab
  · rintro ⟨tr, s, hrun, rfl, rfl⟩
    refine ⟨Run.map hstep hrun, ?_⟩
    intro x hx
    obtain ⟨y, -, rfl⟩ := List.mem_map.mp hx
    exact ⟨y.2, rfl⟩

/-- What a smaller system sees of a run: the steps that are steps of its own. -/
def view (f : S → S') (g : S → L → Option L') (tr : List (S × L)) : List (S' × L') :=
  tr.filterMap fun x => (g x.1 x.2).map fun l => (f x.1, l)

theorem view_snoc (f : S → S') (g : S → L → Option L') (tr : List (S × L)) (x : S × L) :
    view f g (tr ++ [x]) = view f g tr ++ ((g x.1 x.2).map fun l => (f x.1, l)).toList := by
  rw [view, List.filterMap_append]
  cases hx : g x.1 x.2 <;> simp [view, hx]

theorem mem_view {f : S → S'} {g : S → L → Option L'} {z : S'} {l' : L'} :
    (z, l') ∈ view f g tr ↔ ∃ s l, (s, l) ∈ tr ∧ f s = z ∧ g s l = some l' := by
  simp only [view, List.mem_filterMap, Option.map_eq_some_iff, Prod.mk.injEq, Prod.exists]
  constructor
  · rintro ⟨s, l, hmem, k, hk, hf, rfl⟩
    exact ⟨s, l, hmem, hf, hk⟩
  · rintro ⟨s, l, hmem, hf, hk⟩
    exact ⟨s, l, hmem, l', hk, hf, rfl⟩

/-- **Projection.**  Where every step is one of the smaller system or none of its business, what it
sees of a run is a run of it. -/
theorem Run.view {f : S → S'} {g : S → L → Option L'}
    (hstep : ∀ s l s', step s l = some s' → (g s l = none → f s' = f s) ∧
      ∀ l', g s l = some l' → step' (f s) l' = some (f s'))
    (h : Run step s₀ tr s₁) : Run step' (f s₀) (view f g tr) (f s₁) := by
  induction h with
  | nil => exact Run.nil
  | @snoc tr s l s' _ hs ih =>
    rw [view_snoc]
    cases hl : g s l with
    | none =>
      rw [(hstep s l s' hs).1 hl]
      simpa using ih
    | some l' => exact ih.snoc ((hstep s l s' hs).2 l' hl)

end Embedding

/-! ## 4. Counting events since the last reset -/

section Counting

variable {α : Type}

/-- How many entries satisfy `hit` after the last one that satisfies `reset`. -/
def sinceLast (reset hit : α → Bool) (xs : List α) : Nat :=
  xs.foldl (fun n x => if reset x then 0 else if hit x then n + 1 else n) 0

theorem sinceLast_snoc (reset hit : α → Bool) (xs : List α) (x : α) :
    sinceLast reset hit (xs ++ [x]) =
      if reset x then 0 else if hit x then sinceLast reset hit xs + 1
      else sinceLast reset hit xs := by
  simp [sinceLast, List.foldl_append]

/-- A stretch without a reset counts in full. -/
theorem sinceLast_append (reset hit : α → Bool) (xs : List α) :
    ∀ ys : List α, (∀ y ∈ ys, reset y = false) →
      sinceLast reset hit (xs ++ ys) = sinceLast reset hit xs + ys.countP hit := by
  intro ys
  induction ys using List.reverseRecOn with
  | nil => intro _; simp
  | append_singleton ys y ih =>
    intro h
    have hy : reset y = false := h y (by simp)
    have ih' := ih fun z hz => h z (by simp [hz])
    rw [← List.append_assoc, sinceLast_snoc, hy, ih', List.countP_append]
    cases hh : hit y <;> simp [hh, Nat.add_assoc]

/-- A bound on the count at every place of a list bounds every stretch without a reset. -/
theorem countP_le_of_sinceLast {reset hit : α → Bool} {xs ys : List α} {n : Nat}
    (h : sinceLast reset hit (xs ++ ys) ≤ n) (hy : ∀ y ∈ ys, reset y = false) :
    ys.countP hit ≤ n := by
  rw [sinceLast_append reset hit xs ys hy] at h
  omega

end Counting

/-! ## 5. The latest event -/

section Latest

variable {α β : Type}

/-- What the last entry that has a value under `f` has. -/
def latest (f : α → Option β) (xs : List α) : Option β :=
  xs.foldl (fun last x => (f x).or last) none

@[simp] theorem latest_nil (f : α → Option β) : latest f [] = none := rfl

@[simp] theorem latest_snoc (f : α → Option β) (xs : List α) (x : α) :
    latest f (xs ++ [x]) = (f x).or (latest f xs) := by
  simp [latest, List.foldl_append]

theorem latest_eq_none {f : α → Option β} {xs : List α} (h : ∀ x ∈ xs, f x = none) :
    latest f xs = none := by
  induction xs using List.reverseRecOn with
  | nil => rfl
  | append_singleton xs x ih =>
    rw [latest_snoc, h x (by simp), ih fun y hy => h y (by simp [hy]), Option.none_or]

theorem exists_of_latest {f : α → Option β} {xs : List α} {y : β} (h : latest f xs = some y) :
    ∃ x ∈ xs, f x = some y := by
  by_contra hno
  induction xs using List.reverseRecOn with
  | nil => exact absurd h (by simp)
  | append_singleton xs x ih =>
    rw [latest_snoc, Option.or_eq_some_iff] at h
    rcases h with hx | ⟨-, hxs⟩
    · exact hno ⟨x, by simp, hx⟩
    · exact ih hxs fun ⟨z, hz, hy⟩ => hno ⟨z, by simp [hz], hy⟩

end Latest

/-! ## 6. Playing a list of labels -/

/-- Take the labels one after the other, refusing one the scheduler may not take. -/
def play (step : S → L → Option S) (ok : S → L → Bool) : S → List L → Option (List (S × L) × S)
  | s, [] => some ([], s)
  | s, l :: ls =>
    if ok s l then
      match step s l with
      | none => none
      | some s' => (play step ok s' ls).map fun r => ((s, l) :: r.1, r.2)
    else none

theorem play_sound {ok : S → L → Bool} :
    ∀ (ls : List L) {s s' : S} {tr : List (S × L)}, play step ok s ls = some (tr, s') →
      Run step s tr s' ∧ Along (fun s l => ok s l = true) tr
  | [], s, s', tr, h => by
    simp only [play, Option.some.injEq, Prod.mk.injEq] at h
    obtain ⟨rfl, rfl⟩ := h
    exact ⟨Run.nil, by simp [Along]⟩
  | l :: ls, s, s', tr, h => by
    simp only [play] at h
    split at h
    · rename_i hok
      cases hs : step s l with
      | none => rw [hs] at h; exact absurd h (by simp)
      | some s₁ =>
        rw [hs] at h
        simp only [Option.map_eq_some_iff, Prod.mk.injEq] at h
        obtain ⟨⟨tr₁, s₂⟩, hr, rfl, rfl⟩ := h
        obtain ⟨hrun, hall⟩ := play_sound ls hr
        refine ⟨Run.cons hs hrun, ?_⟩
        intro p hp
        rcases List.mem_cons.mp hp with rfl | hp
        · exact hok
        · exact hall p hp
    · exact absurd h (by simp)

theorem play_labels {ok : S → L → Bool} :
    ∀ (ls : List L) {s s' : S} {tr : List (S × L)}, play step ok s ls = some (tr, s') →
      tr.map Prod.snd = ls
  | [], s, s', tr, h => by
    simp only [play, Option.some.injEq, Prod.mk.injEq] at h
    rw [← h.1, List.map_nil]
  | l :: ls, s, s', tr, h => by
    simp only [play] at h
    split at h
    · cases hs : step s l with
      | none => rw [hs] at h; exact absurd h (by simp)
      | some s₁ =>
        rw [hs] at h
        simp only [Option.map_eq_some_iff, Prod.mk.injEq] at h
        obtain ⟨⟨tr₁, s₂⟩, hr, rfl, rfl⟩ := h
        rw [List.map_cons, play_labels ls hr]
    · exact absurd h (by simp)

/-- Labels that can be played are those of a run. -/
theorem run_of_play {ok : S → L → Bool} {ls : List L} {s : S}
    (h : (play step ok s ls).isSome = true) : ∃ tr s', Run step s tr s' ∧
      Along (fun s l => ok s l = true) tr ∧ tr.map Prod.snd = ls := by
  obtain ⟨⟨tr, s'⟩, hp⟩ := Option.isSome_iff_exists.mp h
  obtain ⟨hrun, hall⟩ := play_sound ls hp
  exact ⟨tr, s', hrun, hall, play_labels ls hp⟩

/-- A played run that passes a test gives a run that passes it: how concrete runs are built. -/
theorem exists_run_of_play (step : S → L → Option S) (s₀ : S) (ok : S → L → Bool) (ls : List L)
    (test : List (S × L) → S → Bool) (h : (play step ok s₀ ls).any (fun r => test r.1 r.2) = true) :
    ∃ tr s, Run step s₀ tr s ∧ Along (fun s l => ok s l = true) tr ∧ test tr s = true := by
  cases hp : play step ok s₀ ls with
  | none => rw [hp] at h; exact absurd h (by simp)
  | some r =>
    rw [hp] at h
    obtain ⟨hrun, hall⟩ := play_sound ls (show play step ok s₀ ls = some (r.1, r.2) from hp)
    exact ⟨r.1, r.2, hrun, hall, by simpa using h⟩

/-- Check a restriction that reads the past, entry by entry. -/
def followsFrom (ok : List (S × L) → S → L → Bool) : List (S × L) → List (S × L) → Bool
  | _, [] => true
  | a, p :: b => ok a p.1 p.2 && followsFrom ok (a ++ [p]) b

theorem follows_of_followsFrom {ok : List (S × L) → S → L → Bool} {tr : List (S × L)}
    (h : followsFrom ok [] tr = true) : Follows (fun a s l => ok a s l = true) tr := by
  have key : ∀ (tr a₀ : List (S × L)), followsFrom ok a₀ tr = true →
      ∀ a p b, tr = a ++ p :: b → ok (a₀ ++ a) p.1 p.2 = true := by
    intro tr
    induction tr with
    | nil => intro _ _ a p b hab; exact absurd hab (by simp)
    | cons q tr ih =>
      intro a₀ h a p b hab
      simp only [followsFrom, Bool.and_eq_true] at h
      cases a with
      | nil =>
        obtain ⟨rfl, rfl⟩ := List.cons.inj hab
        simpa using h.1
      | cons q' a =>
        obtain ⟨rfl, rfl⟩ := List.cons.inj hab
        simpa using ih (a₀ ++ [q]) h.2 a p b rfl
  intro a p b hab
  simpa using key tr [] h a p b hab

end Lts
