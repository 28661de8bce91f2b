/-
# Pricing (`app/pricing.py`)

A price is quoted in USD per million tokens, so one token costs that many micro-dollars.  The
table's prices have two decimals and are written here in hundredths; `computeCost` divides by
100 at the end and rounds half to even, which is `Decimal.quantize` at six decimals.  (The
decimal context keeps 28 digits, which a token count stored in an `Integer` column never needs.)
-/
import EvalHarness.Schema

namespace EvalHarness

/-- Input and output price in hundredths of a USD per million tokens. -/
structure Price where
  input : Int
  output : Int
  deriving DecidableEq, Repr

/-- `_DEFAULT_PRICE`: unknown and local models are free. -/
def defaultPrice : Price := ⟨0, 0⟩

/-- `_PRICE_PER_MILLION`. -/
def pricePerMillion : List (String × Price) :=
  [("gpt-4o", ⟨250, 1000⟩),
   ("gpt-4o-mini", ⟨15, 60⟩),
   ("gpt-4.1", ⟨200, 800⟩),
   ("gpt-4.1-mini", ⟨40, 160⟩),
   ("claude-3-5-sonnet-20241022", ⟨300, 1500⟩),
   ("claude-3-7-sonnet-20250219", ⟨300, 1500⟩),
   ("claude-sonnet-4-20250514", ⟨300, 1500⟩),
   ("claude-opus-4-20250514", ⟨1500, 7500⟩)]

def priceForModel (modelId : String) : Price := (pricePerMillion.lookup modelId).getD defaultPrice

/-- `n / d` to the nearest integer, a tie going to the even one. -/
def roundHalfEven (n : Int) (d : Nat) : Int :=
  let q := n / d
  let m := n % d
  if 2 * m < d then q
  else if 2 * m = d ∧ q % 2 = 0 then q
  else q + 1

/-- `compute_cost`: the price of one completion in micro-dollars. -/
def computeCost (modelId : String) (promptTokens completionTokens : Int) : MicroUsd :=
  let price := priceForModel modelId
  roundHalfEven (promptTokens * price.input + completionTokens * price.output) 100

-- 100 000 tokens each way at gpt-4o prices: $1.25
example : computeCost "gpt-4o" 100000 100000 = 1250000 := by decide

end EvalHarness
