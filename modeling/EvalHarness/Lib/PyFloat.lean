/-
# Python's `float`, as far as programs compare and truncate it

A finite `float` is the exact number it stands for; the infinities and the NaN are constructors of
their own.  Every ordering of a NaN is false, but a `Decimal` that is one cannot be ordered at all.
-/
import EvalHarness.Lib.PyStr
import Mathlib.Algebra.Order.Ring.Rat

namespace Py

inductive Float
  | num (x : Rat)
  | inf (negative : Bool)
  | nan
  deriving DecidableEq, Repr

namespace Float

/-- `x < y`. -/
def lt : Float → Float → Bool
  | .num x, .num y => x < y
  | .num _, .inf negative => !negative
  | .inf negative, .num _ => negative
  | .inf a, .inf b => a && !b
  | .nan, _ | _, .nan => false

/-- `x <= y`. -/
def le : Float → Float → Bool
  | .num x, .num y => x ≤ y
  | .num _, .inf negative => !negative
  | .inf negative, .num _ => negative
  | .inf a, .inf b => a || !b
  | .nan, _ | _, .nan => false

/-- `int(x)`. -/
def toInt : Float → Except Exc Int
  | .num x => .ok (x.num.tdiv x.den)
  | .inf _ => .error .overflowError
  | .nan => .error .valueError

end Float

end Py
