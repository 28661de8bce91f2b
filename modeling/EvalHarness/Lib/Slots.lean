/-
# Accounts over slots

A system whose parties sit in slots, one occupant at a time, often has a resource that occupants
take over, carry for a while and hand on: attempts, permits, notices.  `Weigh` says what the
occupants carry together, however many slots there are, as long as finitely many are taken.  A
transition moves one slot (`Moves`), so a claim about the whole is a claim about one occupant:
`Run.account` and `Run.balance` are the induction.
-/
import Mathlib.Algebra.BigOperators.Group.Finset.Basic
import Mathlib.Algebra.BigOperators.Fin
import Mathlib.Algebra.Order.BigOperators.Group.Finset
import EvalHarness.Lib.Runs

namespace Lts

section Slots

variable {σ ε : Type} {f : ε → Nat} {slots slots' : σ → Option ε} {n : Nat}

/-- What a slot carries. -/
def weight (f : ε → Nat) (o : Option ε) : Nat := o.elim 0 f

@[simp] theorem weight_none (f : ε → Nat) : weight f none = 0 := rfl
@[simp] theorem weight_some (f : ε → Nat) (e : ε) : weight f (some e) = f e := rfl

/-- The occupants of the slots carry `n` together. -/
def Weigh (f : ε → Nat) (slots : σ → Option ε) (n : Nat) : Prop :=
  ∃ busy : Finset σ, (∀ s, s ∉ busy → slots s = none) ∧ n = ∑ s ∈ busy, weight f (slots s)

theorem weigh_idle (h : ∀ s, slots s = none) : Weigh f slots 0 :=
  ⟨∅, fun s _ => h s, rfl⟩

theorem Weigh.eq_zero (h : Weigh f slots n) (hz : ∀ s, weight f (slots s) = 0) : n = 0 := by
  obtain ⟨busy, -, rfl⟩ := h
  exact Finset.sum_eq_zero fun s _ => hz s

variable [DecidableEq σ]

/-- An occupant carries no more than all do. -/
theorem Weigh.le (h : Weigh f slots n) (s : σ) : weight f (slots s) ≤ n := by
  obtain ⟨busy, hidle, rfl⟩ := h
  by_cases hs : s ∈ busy
  · exact Finset.single_le_sum (f := fun s => weight f (slots s)) (fun _ _ => Nat.zero_le _) hs
  · simp [hidle s hs]

/-- One slot is given a new occupant, or none. -/
theorem Weigh.update (h : Weigh f slots n) (s : σ) (o : Option ε) :
    ∃ m, Weigh f (Function.update slots s o) m ∧ m + weight f (slots s) = n + weight f o := by
  obtain ⟨busy, hidle, rfl⟩ := h
  have hsum : ∑ k ∈ busy, weight f (slots k) = ∑ k ∈ insert s busy, weight f (slots k) := by
    by_cases hs : s ∈ busy
    · rw [Finset.insert_eq_of_mem hs]
    · rw [Finset.sum_insert hs, hidle s hs, weight_none, Nat.zero_add]
  have hmem : s ∈ insert s busy := Finset.mem_insert_self s busy
  have hold := Finset.add_sum_erase _ (fun k => weight f (slots k)) hmem
  have hnew := Finset.add_sum_erase _ (fun k => weight f (Function.update slots s o k)) hmem
  have hrest : ∑ k ∈ (insert s busy).erase s, weight f (Function.update slots s o k) =
      ∑ k ∈ (insert s busy).erase s, weight f (slots k) :=
    Finset.sum_congr rfl fun k hk => by rw [Function.update_of_ne (Finset.ne_of_mem_erase hk)]
  refine ⟨_, ⟨insert s busy, fun k hk => ?_, rfl⟩, ?_⟩
  · rw [Finset.mem_insert, not_or] at hk
    rw [Function.update_of_ne hk.1]
    exact hidle k hk.2
  · simp only [Function.update_self] at hnew
    omega

/-- A transition of the slots: `gain` comes in and `loss` goes out. -/
inductive Moves (f : ε → Nat) (slots : σ → Option ε) : (σ → Option ε) → Nat → Nat → Prop
  | same : Moves f slots slots 0 0
  | update (s : σ) (o : Option ε) :
      Moves f slots (Function.update slots s o) (weight f o) (weight f (slots s))

theorem Weigh.moves {gain loss : Nat} (h : Weigh f slots n) (hm : Moves f slots slots' gain loss) :
    ∃ m, Weigh f slots' m ∧ m + loss = n + gain := by
  cases hm with
  | same => exact ⟨n, h, rfl⟩
  | update s o => exact h.update s o

end Slots

section Accounts

variable {S L σ ε : Type} [DecidableEq σ] {step : S → L → Option S} {s₀ s : S}
  {tr : List (S × L)} (slots : S → σ → Option ε) (spent earned : List (S × L) → S → Nat)

/-- **Accounts are kept.**  If no transition lets the amount spent and carried grow by more than the
amount earned, then it is never more than that. -/
theorem Run.account (h : Run step s₀ tr s) (f : ε → Nat) (h0 : spent [] s₀ ≤ earned [] s₀)
    (hidle : ∀ k, slots s₀ k = none)
    (hstep : ∀ tr s l s', Run step s₀ tr s → step s l = some s' →
      ∃ gain loss, Moves f (slots s) (slots s') gain loss ∧
        spent (tr ++ [(s, l)]) s' + gain + earned tr s ≤
          earned (tr ++ [(s, l)]) s' + loss + spent tr s) :
    ∃ n, Weigh f (slots s) n ∧ spent tr s + n ≤ earned tr s := by
  induction h with
  | nil => exact ⟨0, weigh_idle hidle, h0⟩
  | snoc hrun hs ih =>
    obtain ⟨n, hn, hle⟩ := ih
    obtain ⟨gain, loss, hm, hacc⟩ := hstep _ _ _ _ hrun hs
    obtain ⟨m, hm, hsum⟩ := hn.moves hm
    exact ⟨m, hm, by omega⟩

/-- The same without loss: what is earned is spent or carried. -/
theorem Run.balance (h : Run step s₀ tr s) (f : ε → Nat) {ok : S → L → Prop} (hok : Along ok tr)
    (h0 : spent [] s₀ = earned [] s₀) (hidle : ∀ k, slots s₀ k = none)
    (hstep : ∀ tr s l s', Run step s₀ tr s → ok s l → step s l = some s' →
      ∃ gain loss, Moves f (slots s) (slots s') gain loss ∧
        spent (tr ++ [(s, l)]) s' + gain + earned tr s =
          earned (tr ++ [(s, l)]) s' + loss + spent tr s) :
    ∃ n, Weigh f (slots s) n ∧ spent tr s + n = earned tr s := by
  induction h with
  | nil => exact ⟨0, weigh_idle hidle, h0⟩
  | snoc hrun hs ih =>
    obtain ⟨hok, hl⟩ := Along.snoc.mp hok
    obtain ⟨n, hn, heq⟩ := ih hok
    obtain ⟨gain, loss, hm, hacc⟩ := hstep _ _ _ _ hrun hl hs
    obtain ⟨m, hm, hsum⟩ := hn.moves hm
    exact ⟨m, hm, by omega⟩

end Accounts

end Lts
