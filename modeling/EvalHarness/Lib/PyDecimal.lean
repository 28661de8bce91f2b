/-
# Python's `Decimal` in its default context

A finite `Decimal` is the number it stands for.  Every operation computes its exact result and
rounds it, half to even, to the 28 digits the context keeps; `quantize` rounds to a given number of
decimals instead, and refuses a result that would need more digits than that.

A number of few digits is not touched by the context (`context_eq_self`), which is how programs that
count money rely on it.
-/
import Mathlib.Algebra.Order.Floor.Ring
import Mathlib.Algebra.Order.Ring.Rat
import Mathlib.Data.Int.Log
import Mathlib.Data.Rat.Floor
import Mathlib.Tactic.Linarith

namespace Py.Decimal

/-! ## 1. Rounding half to even -/

/-- The nearest integer, a tie going to the even one. -/
def toEven (x : ℚ) : ℤ :=
  if x - ⌊x⌋ < 1 / 2 then ⌊x⌋
  else if x - ⌊x⌋ = 1 / 2 ∧ ⌊x⌋ % 2 = 0 then ⌊x⌋
  else ⌊x⌋ + 1

@[simp] theorem toEven_intCast (n : ℤ) : toEven n = n := by simp [toEven]

/-- The two integers it can be, and what decides. -/
theorem toEven_cases (x : ℚ) :
    toEven x = ⌊x⌋ ∧ x - ⌊x⌋ ≤ 1 / 2 ∨ toEven x = ⌊x⌋ + 1 ∧ 1 / 2 ≤ x - ⌊x⌋ := by
  unfold toEven
  split
  · rename_i h
    exact .inl ⟨rfl, h.le⟩
  · rename_i h
    split
    · rename_i htie
      exact .inl ⟨rfl, htie.1.le⟩
    · exact .inr ⟨rfl, not_lt.mp h⟩

theorem abs_toEven_sub_le (x : ℚ) : |(toEven x : ℚ) - x| ≤ 1 / 2 := by
  have hlo := Int.floor_le x
  have hhi := Int.lt_floor_add_one x
  rw [abs_le]
  obtain ⟨h, hx⟩ | ⟨h, hx⟩ := toEven_cases x
  · rw [h]
    constructor <;> linarith
  · rw [h]
    push_cast
    constructor <;> linarith

/-- **Rounding is monotone.**  Where the floors agree the parity decides the same for both. -/
theorem toEven_mono {x y : ℚ} (h : x ≤ y) : toEven x ≤ toEven y := by
  obtain hlt | heq := (Int.floor_mono h).lt_or_eq
  · obtain ⟨hx, -⟩ | ⟨hx, -⟩ := toEven_cases x <;> obtain ⟨hy, -⟩ | ⟨hy, -⟩ := toEven_cases y <;>
      omega
  · unfold toEven
    rw [← heq]
    split
    · split
      · exact le_rfl
      · split <;> omega
    · rename_i hx
      have hy : ¬ y - ⌊x⌋ < 1 / 2 := fun hy => hx (by linarith)
      rw [if_neg hy]
      split
      · split <;> omega
      · rename_i htie
        split
        · -- the smaller one lies above the tie, so the larger one does
          rename_i hytie
          refine absurd ⟨?_, hytie.2⟩ htie
          linarith [hytie.1, not_lt.mp hx]
        · exact le_rfl

/-! ## 2. The context -/

/-- The digits the context keeps. -/
def precision : ℕ := 28

/-- The place of the last digit kept. -/
def place (x : ℚ) : ℤ := Int.log 10 |x| + 1 - precision

/-- The number the context makes of a result. -/
def context (x : ℚ) : ℚ := toEven (x / 10 ^ place x) * 10 ^ place x

def add (x y : ℚ) : ℚ := context (x + y)

def mul (x y : ℚ) : ℚ := context (x * y)

/-- `x / y`, of a `y` that is not zero. -/
def div (x y : ℚ) : ℚ := context (x / y)

/-- `x.quantize(Decimal("1e-places"))`; `none` is an `InvalidOperation`. -/
def quantize (x : ℚ) (places : ℕ) : Option ℚ :=
  let n := toEven (x * 10 ^ places)
  if |n| < 10 ^ precision then some (n / 10 ^ places) else none

/-- **Few digits are kept.** -/
theorem context_eq_self {x : ℚ} {n e : ℤ} (hx : x = n * 10 ^ e) (hn : |n| < 10 ^ precision) :
    context x = x := by
  unfold context
  by_cases hzero : n = 0
  · have h0 : x = 0 := by rw [hx, hzero]; simp
    rw [h0]
    simp [toEven]
  · have hpos : 0 < |x| := by
      rw [hx, abs_pos]
      exact mul_ne_zero (Int.cast_ne_zero.mpr hzero) (zpow_ne_zero _ (by norm_num))
    have hlt : |x| < (10 : ℕ) ^ (precision + e : ℤ) := by
      have hcast : |(n : ℚ)| < 10 ^ precision := by exact_mod_cast hn
      rw [hx, abs_mul, abs_of_pos (zpow_pos (by norm_num : (0 : ℚ) < 10) e), Nat.cast_ofNat,
        zpow_add₀ (by norm_num), zpow_natCast]
      exact mul_lt_mul_of_pos_right hcast (zpow_pos (by norm_num) e)
    have hlog := (Int.lt_zpow_iff_log_lt (by norm_num) hpos).mp hlt
    -- the last digit kept stands to the right of the last digit there is
    have hplace : place x ≤ e := by
      unfold place
      omega
    obtain ⟨k, hk⟩ := Int.le.dest hplace
    have hint : x / 10 ^ place x = ((n * 10 ^ k : ℤ) : ℚ) := by
      generalize place x = u at hk ⊢
      rw [hx, ← hk, zpow_add₀ (by norm_num), zpow_natCast]
      push_cast
      field_simp
    rw [hint, toEven_intCast, ← hint]
    exact div_mul_cancel₀ x (zpow_ne_zero _ (by norm_num))

end Py.Decimal
