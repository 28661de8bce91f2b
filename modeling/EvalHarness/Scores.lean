/-
# Scores

Scores and labels are `float`s on their way in and `Numeric(4,3)` in the database: a number of
thousandths, rounded half to even.  Both schemas that let one in bound it by
`Field(ge=0.0, le=1.0)`, which lets through what compares as at least 0 and at most 1.  A NaN
compares as neither.
-/
import EvalHarness.Pricing
import Mathlib.Algebra.Order.Ring.Rat

namespace EvalHarness

/-! ## 1. Rounding -/

/-- Rounding takes the quotient, or the next number when there is a remainder. -/
theorem roundHalfEven_cases (n : Int) {d : Nat} (hd : 0 < d) :
    roundHalfEven n d = n / d ∨ roundHalfEven n d = n / d + 1 ∧ 0 < n % d := by
  simp only [roundHalfEven]
  split
  · exact Or.inl rfl
  · split
    · exact Or.inl rfl
    · exact Or.inr ⟨rfl, by omega⟩

theorem roundHalfEven_nonneg {n : Int} {d : Nat} (hd : 0 < d) (hn : 0 ≤ n) :
    0 ≤ roundHalfEven n d := by
  have hq : 0 ≤ n / (d : Int) := Int.ediv_nonneg hn (by omega)
  rcases roundHalfEven_cases n hd with h | ⟨h, -⟩ <;> omega

theorem roundHalfEven_le {n m : Int} {d : Nat} (hd : 0 < d) (h : n ≤ m * d) :
    roundHalfEven n d ≤ m := by
  have hd' : (0 : Int) < d := by omega
  rcases roundHalfEven_cases n hd with hr | ⟨hr, hrem⟩
  · rw [hr]
    exact Int.ediv_le_of_le_mul hd' h
  · -- a remainder leaves room below `m`
    have hdiv : n / (d : Int) < m := by
      refine Int.ediv_lt_of_lt_mul hd' (lt_of_le_of_ne h fun heq => ?_)
      rw [heq, Int.mul_emod_left] at hrem
      exact absurd hrem (by simp)
    omega

/-- A number in thousandths. -/
def thousandths (x : Rat) : Int := roundHalfEven (x.num * 1000) x.den

theorem thousandths_mem {x : Rat} (h0 : 0 ≤ x) (h1 : x ≤ 1) :
    0 ≤ thousandths x ∧ thousandths x ≤ 1000 := by
  have hnum : 0 ≤ x.num := Rat.num_nonneg.mpr h0
  have hle : x.num ≤ x.den := by
    have := Rat.le_iff x 1 |>.mp h1
    simpa using this
  exact ⟨roundHalfEven_nonneg x.den_pos (by omega), roundHalfEven_le x.den_pos (by omega)⟩

/-! ## 2. What a validated `float` is stored as -/

/-- A `float` that has passed `Field(ge=0.0, le=1.0)`. -/
structure UnitFloat where
  num ::
  value : Rat
  ge : 0 ≤ value
  le : value ≤ 1
  deriving DecidableEq

/-- `Decimal(str(..))` of it, at three decimals. -/
def UnitFloat.score (x : UnitFloat) : Score := .milli (thousandths x.value)

/-- The score lies in `[0, 1]`. -/
def Score.InUnit : Score → Prop
  | .nan => False
  | .milli n => 0 ≤ n ∧ n ≤ 1000

theorem UnitFloat.score_inUnit (x : UnitFloat) : x.score.InUnit := thousandths_mem x.ge x.le

end EvalHarness
