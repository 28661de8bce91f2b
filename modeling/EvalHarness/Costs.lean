/-
# What a completion costs (`app/pricing.py`)

`compute_cost` computes with `Decimal`s; the rest of the development has it in whole micro-dollars
(`computeCost`).  `computeCostDecimal` is the function as the source has it, and
`computeCostDecimal_eq` says that for token counts of 32 bits the two agree: no product, sum or
quotient has more digits than the decimal context keeps, so the one rounding is the last one.

That rounding is off by half a micro-dollar at most and keeps the order, which is all that
`pricing_faithful` needs.
-/
import EvalHarness.Lib.PyDecimal
import EvalHarness.Scores

namespace EvalHarness

open Py.Decimal (toEven context add mul div quantize context_eq_self)

/-! ## 1. The prices -/

def Price.inputUsd (p : Price) : ℚ := p.input / 100

def Price.outputUsd (p : Price) : ℚ := p.output / 100

/-- `compute_cost`; `none` is an `InvalidOperation`. -/
def computeCostDecimal (modelId : String) (promptTokens completionTokens : Int) : Option ℚ :=
  let price := priceForModel modelId
  let cost := div (add (mul promptTokens price.inputUsd) (mul completionTokens price.outputUsd))
    1000000
  quantize cost 6

/-- The cost before it is rounded. -/
def exactCost (modelId : String) (promptTokens completionTokens : Int) : ℚ :=
  let price := priceForModel modelId
  (promptTokens * price.inputUsd + completionTokens * price.outputUsd) / 1000000

/-- A value of a signed 32-bit column. -/
def Int32 (n : Int) : Prop := -2 ^ 31 ≤ n ∧ n ≤ 2 ^ 31 - 1

instance (n : Int) : Decidable (Int32 n) := inferInstanceAs (Decidable (_ ∧ _))

/-- Every price lies between nothing and 75 USD per million tokens, the input's below 15. -/
theorem priceForModel_mem (modelId : String) :
    (0 ≤ (priceForModel modelId).input ∧ (priceForModel modelId).input ≤ 1500) ∧
      0 ≤ (priceForModel modelId).output ∧ (priceForModel modelId).output ≤ 7500 := by
  have hall : ∀ x ∈ pricePerMillion, (0 ≤ x.2.input ∧ x.2.input ≤ 1500) ∧
      0 ≤ x.2.output ∧ x.2.output ≤ 7500 := by decide
  unfold priceForModel
  cases h : pricePerMillion.lookup modelId with
  | none => exact ⟨⟨le_rfl, by decide⟩, le_rfl, by decide⟩
  | some price =>
    obtain ⟨l₁, l₂, hl, -⟩ := List.lookup_eq_some_iff.mp h
    exact hall (modelId, price) (by simp [hl])

/-! ## 2. Rounding -/

theorem roundHalfEven_eq_toEven (n : Int) {d : Nat} (hd : 0 < d) :
    roundHalfEven n d = toEven ((n : ℚ) / d) := by
  have hdq : (0 : ℚ) < d := by exact_mod_cast hd
  have hfloor : ⌊(n : ℚ) / d⌋ = n / d := Rat.floor_intCast_div_natCast n d
  have hrem : (n : ℚ) / d - (n / d : ℤ) = ((n % d : ℤ) : ℚ) / d := by
    have hsplit : (n : ℚ) = d * ((n / d : ℤ) : ℚ) + ((n % d : ℤ) : ℚ) := by
      exact_mod_cast (Int.mul_ediv_add_emod n d).symm
    rw [eq_div_iff hdq.ne', sub_mul, div_mul_cancel₀ _ hdq.ne']
    linarith
  have hlt : ((n % d : ℤ) : ℚ) / d < 1 / 2 ↔ 2 * (n % d) < d := by
    rw [div_lt_div_iff₀ hdq (by norm_num), one_mul, mul_comm]
    exact_mod_cast Iff.rfl
  have heq : ((n % d : ℤ) : ℚ) / d = 1 / 2 ↔ 2 * (n % d) = d := by
    rw [div_eq_div_iff hdq.ne' (by norm_num), one_mul, mul_comm]
    exact_mod_cast Iff.rfl
  unfold roundHalfEven toEven
  simp only [hfloor, hrem, hlt, heq]

theorem roundHalfEven_mono {n m : Int} {d : Nat} (hd : 0 < d) (h : n ≤ m) :
    roundHalfEven n d ≤ roundHalfEven m d := by
  rw [roundHalfEven_eq_toEven n hd, roundHalfEven_eq_toEven m hd]
  refine Py.Decimal.toEven_mono (div_le_div_of_nonneg_right ?_ (Nat.cast_nonneg d))
  exact_mod_cast h

/-! ## 3. The two forms of `compute_cost` -/

/-- The cost in hundredths of a micro-dollar, before it is rounded. -/
def hundredths (modelId : String) (promptTokens completionTokens : Int) : Int :=
  promptTokens * (priceForModel modelId).input + completionTokens * (priceForModel modelId).output

theorem computeCost_eq (modelId : String) (p c : Int) :
    computeCost modelId p c = toEven (hundredths modelId p c / 100) := by
  rw [computeCost, roundHalfEven_eq_toEven _ (by decide)]
  rfl

theorem exactCost_eq (modelId : String) (p c : Int) :
    exactCost modelId p c = hundredths modelId p c / 100 / 10 ^ 6 := by
  simp only [exactCost, hundredths, Price.inputUsd, Price.outputUsd]
  push_cast
  ring

section Costs

variable {modelId : String} {p c : Int}

/-- A token count of 32 bits at any price. -/
theorem abs_mul_price_le {n price : Int} (hn : Int32 n) (h0 : 0 ≤ price) (h1 : price ≤ 7500) :
    |n * price| ≤ 2 ^ 31 * 7500 := by
  rw [abs_mul, abs_of_nonneg h0]
  have habs : |n| ≤ 2 ^ 31 := abs_le.mpr ⟨hn.1, by have := hn.2; omega⟩
  exact mul_le_mul habs h1 h0 (by decide)

/-- The context keeps every digit of such a product, and of a multiple of one hundredth of it. -/
theorem context_hundredths {n : Int} (hn : |n| ≤ 2 ^ 31 * 15000) (e : Int) :
    context (n * 10 ^ e) = n * 10 ^ e := by
  have hdigits : (2 : Int) ^ 31 * 15000 < 10 ^ Py.Decimal.precision := by decide
  exact context_eq_self rfl (hn.trans_lt hdigits)

theorem abs_hundredths_le (hp : Int32 p) (hc : Int32 c) :
    |hundredths modelId p c| ≤ 2 ^ 31 * 15000 := by
  obtain ⟨⟨hi0, hi1⟩, ho0, ho1⟩ := priceForModel_mem modelId
  have hin := abs_mul_price_le hp hi0 (hi1.trans (by decide))
  have hout := abs_mul_price_le hc ho0 ho1
  exact (abs_add_le _ _).trans (by omega)

theorem abs_computeCost_le (hp : Int32 p) (hc : Int32 c) :
    |computeCost modelId p c| ≤ 2 ^ 31 * 150 := by
  obtain ⟨hlo, hhi⟩ := abs_le.mp (@abs_hundredths_le modelId p c hp hc)
  have hlow : roundHalfEven (-(2 ^ 31 * 150) * 100) 100 ≤ computeCost modelId p c :=
    roundHalfEven_mono (by decide) (by unfold hundredths at hlo; omega)
  have hhigh : computeCost modelId p c ≤ roundHalfEven (2 ^ 31 * 150 * 100) 100 :=
    roundHalfEven_mono (by decide) (by unfold hundredths at hhi; omega)
  rw [abs_le]
  exact ⟨hlow, hhigh⟩

/-- The product of a token count and a price, as the context has it. -/
theorem mul_price {n price : Int} (hn : Int32 n) (h0 : 0 ≤ price) (h1 : price ≤ 7500) :
    mul n (price / 100) = (n * price : Int) * 10 ^ (-2 : Int) := by
  have hexact : (n : ℚ) * (price / 100) = (n * price : Int) * 10 ^ (-2 : Int) := by
    push_cast
    ring
  unfold mul
  rw [hexact]
  exact context_hundredths ((abs_mul_price_le hn h0 h1).trans (by decide)) _

/-- **The context keeps every digit**: `compute_cost` rounds once, to micro-dollars. -/
theorem computeCostDecimal_eq (hp : Int32 p) (hc : Int32 c) :
    computeCostDecimal modelId p c = some ((computeCost modelId p c : ℚ) / 10 ^ 6) := by
  obtain ⟨⟨hi0, hi1⟩, ho0, ho1⟩ := priceForModel_mem modelId
  have hh : |hundredths modelId p c| ≤ 2 ^ 31 * 15000 := abs_hundredths_le hp hc
  have hsum : add (mul p (priceForModel modelId).inputUsd) (mul c (priceForModel modelId).outputUsd)
      = hundredths modelId p c * 10 ^ (-2 : Int) := by
    unfold Price.inputUsd Price.outputUsd add
    rw [mul_price hp hi0 (hi1.trans (by decide)), mul_price hc ho0 ho1, ← add_mul]
    exact_mod_cast context_hundredths hh _
  have hquot : div (hundredths modelId p c * 10 ^ (-2 : Int)) 1000000
      = hundredths modelId p c * 10 ^ (-8 : Int) := by
    have hexact : (hundredths modelId p c * 10 ^ (-2 : Int) : ℚ) / 1000000
        = hundredths modelId p c * 10 ^ (-8 : Int) := by ring
    unfold div
    rw [hexact]
    exact context_hundredths hh _
  have hscale : (hundredths modelId p c : ℚ) * 10 ^ (-8 : Int) * 10 ^ 6 =
      hundredths modelId p c / 100 := by ring
  have hfit : |computeCost modelId p c| < 10 ^ Py.Decimal.precision :=
    (abs_computeCost_le hp hc).trans_lt (by decide)
  unfold computeCostDecimal
  simp only [hsum, hquot, quantize, hscale, ← computeCost_eq, if_pos hfit]

/-! ## 4. The range, the error and the order -/

theorem computeCost_nonneg (hp : 0 ≤ p) (hc : 0 ≤ c) : 0 ≤ computeCost modelId p c := by
  obtain ⟨⟨hi, -⟩, ho, -⟩ := priceForModel_mem modelId
  exact roundHalfEven_nonneg (by decide) (add_nonneg (mul_nonneg hp hi) (mul_nonneg hc ho))

theorem computeCost_lt (hp : Int32 p) (hc : Int32 c) : computeCost modelId p c < 10 ^ 12 :=
  (le_abs_self _).trans_lt ((abs_computeCost_le hp hc).trans_lt (by decide))

theorem computeCost_mono {p' c' : Int} (hp : p ≤ p') (hc : c ≤ c') :
    computeCost modelId p c ≤ computeCost modelId p' c' := by
  obtain ⟨⟨hi, -⟩, ho, -⟩ := priceForModel_mem modelId
  exact roundHalfEven_mono (by decide)
    (add_le_add (mul_le_mul_of_nonneg_right hp hi) (mul_le_mul_of_nonneg_right hc ho))

/-- Half a micro-dollar at most is lost or won. -/
theorem abs_computeCost_sub_exactCost_le (modelId : String) (p c : Int) :
    |(computeCost modelId p c : ℚ) / 10 ^ 6 - exactCost modelId p c| ≤ 5 / 10 ^ 7 := by
  have hround := Py.Decimal.abs_toEven_sub_le (hundredths modelId p c / 100)
  rw [computeCost_eq, exactCost_eq, ← sub_div, abs_div, abs_of_pos (by norm_num : (0 : ℚ) < 10 ^ 6),
    div_le_iff₀ (by norm_num)]
  exact hround.trans (by norm_num)

end Costs

/-! ## 5. A list of completions -/

/-- What `compute_cost` is called with. -/
structure Usage where
  modelId : String
  promptTokens : Int
  completionTokens : Int
  deriving DecidableEq

/-- A token count that a completion can report. -/
def TokenCount (n : Int) : Prop := 0 ≤ n ∧ n ≤ 2 ^ 31 - 1

theorem TokenCount.int32 {n : Int} (h : TokenCount n) : Int32 n := by
  obtain ⟨hlo, hhi⟩ := h
  exact ⟨by omega, hhi⟩

namespace Usage

/-- Both of its counts are token counts. -/
def Counted (u : Usage) : Prop := TokenCount u.promptTokens ∧ TokenCount u.completionTokens

def cost (u : Usage) : Option ℚ := computeCostDecimal u.modelId u.promptTokens u.completionTokens

def exact (u : Usage) : ℚ := exactCost u.modelId u.promptTokens u.completionTokens

theorem cost_eq {u : Usage} (hu : u.Counted) :
    u.cost = some ((computeCost u.modelId u.promptTokens u.completionTokens : ℚ) / 10 ^ 6) :=
  computeCostDecimal_eq hu.1.int32 hu.2.int32

end Usage

/-- The errors add up, and no more than that. -/
theorem sum_cost_sub_sum_exact_le {us : List Usage} (hus : ∀ u ∈ us, u.Counted) :
    ∃ costs, us.mapM Usage.cost = some costs ∧
      |costs.sum - (us.map Usage.exact).sum| ≤ 5 / 10 ^ 7 * us.length := by
  induction us with
  | nil => exact ⟨[], rfl, by simp⟩
  | cons u us ih =>
    obtain ⟨costs, hcosts, hsum⟩ := ih fun v hv => hus v (List.mem_cons_of_mem u hv)
    have hu := Usage.cost_eq (hus u List.mem_cons_self)
    refine ⟨_, by rw [List.mapM_cons, hu, hcosts]; rfl, ?_⟩
    have hone := abs_computeCost_sub_exactCost_le u.modelId u.promptTokens u.completionTokens
    rw [List.map_cons, List.sum_cons, List.sum_cons, add_sub_add_comm, List.length_cons]
    refine (abs_add_le _ _).trans ?_
    calc _ ≤ (5 / 10 ^ 7 + 5 / 10 ^ 7 * us.length : ℚ) := add_le_add hone hsum
      _ = _ := by push_cast; ring

/-- **Pricing is faithful and monotone.** -/
theorem pricing_faithful {modelId : String} {p c : Int} (hp : TokenCount p) (hc : TokenCount c) :
    (∃ micros : Int, computeCostDecimal modelId p c = some ((micros : ℚ) / 10 ^ 6) ∧ 0 ≤ micros ∧
        (micros : ℚ) / 10 ^ 6 < 10 ^ 6 ∧
        |(micros : ℚ) / 10 ^ 6 - exactCost modelId p c| ≤ 5 / 10 ^ 7) ∧
      (∀ p', TokenCount p' → p ≤ p' →
        ∃ x y, computeCostDecimal modelId p c = some x ∧ computeCostDecimal modelId p' c = some y ∧
          x ≤ y) ∧
      (∀ c', TokenCount c' → c ≤ c' →
        ∃ x y, computeCostDecimal modelId p c = some x ∧ computeCostDecimal modelId p c' = some y ∧
          x ≤ y) ∧
      ∀ us : List Usage, (∀ u ∈ us, u.Counted) →
        ∃ costs, us.mapM Usage.cost = some costs ∧
          |costs.sum - (us.map Usage.exact).sum| ≤ 5 / 10 ^ 7 * us.length := by
  have hcost : computeCostDecimal modelId p c = some ((computeCost modelId p c : ℚ) / 10 ^ 6) :=
    computeCostDecimal_eq hp.int32 hc.int32
  have hmono : ∀ p' c', TokenCount p' → TokenCount c' → p ≤ p' → c ≤ c' →
      ∃ x y, computeCostDecimal modelId p c = some x ∧
        computeCostDecimal modelId p' c' = some y ∧ x ≤ y := by
    intro p' c' hp' hc' hle hle'
    refine ⟨_, _, hcost, computeCostDecimal_eq hp'.int32 hc'.int32, ?_⟩
    refine div_le_div_of_nonneg_right ?_ (by norm_num)
    exact_mod_cast computeCost_mono hle hle'
  refine ⟨⟨_, hcost, computeCost_nonneg hp.1 hc.1, ?_, abs_computeCost_sub_exactCost_le _ _ _⟩,
    fun p' hp' hle => hmono p' c hp' hc hle le_rfl, fun c' hc' hle => hmono p c' hp hc' le_rfl hle,
    fun us hus => sum_cost_sub_sum_exact_le hus⟩
  rw [div_lt_iff₀ (by norm_num)]
  have hlt : computeCost modelId p c < 10 ^ 12 := computeCost_lt hp.int32 hc.int32
  calc (computeCost modelId p c : ℚ) < ((10 ^ 12 : Int) : ℚ) := by exact_mod_cast hlt
    _ = _ := by norm_num

/-- One token each way at the price of `gpt-4o` is 12.5 micro-dollars: the tie goes to 12. -/
theorem pricing_faithful_tie :
    computeCostDecimal "gpt-4o" 1 1 = some (12 / 10 ^ 6) ∧
      |(12 : ℚ) / 10 ^ 6 - exactCost "gpt-4o" 1 1| ≤ 5 / 10 ^ 7 := by
  have hone : TokenCount 1 := ⟨by decide, by decide⟩
  obtain ⟨⟨micros, hcost, -, -, herr⟩, -⟩ := @pricing_faithful "gpt-4o" 1 1 hone hone
  have hval : computeCostDecimal "gpt-4o" 1 1 = some (12 / 10 ^ 6) := by
    rw [computeCostDecimal_eq hone.int32 hone.int32]
    have htie : computeCost "gpt-4o" 1 1 = 12 := by decide
    rw [htie]
    rfl
  have hmicros : (micros : ℚ) / 10 ^ 6 = 12 / 10 ^ 6 := by
    rw [hval] at hcost
    exact (Option.some.inj hcost).symm
  rw [hmicros] at herr
  exact ⟨hval, herr⟩

end EvalHarness
