/-
# Operands

An expression has a number or a truth value. Comparisons take truth values as one and zero, and are
false when an operand is no number. Equality allows for a small relative error.
-/
import TradingRules.Condition.Basic

namespace TradingRules

/-- The value of an expression. -/
inductive Operand where
  | number (x : Float)
  | truth (b : Bool)
deriving DecidableEq, Repr

namespace Operand

/-- An operand as a number. -/
def toFloat : Operand → Float
  | .number x => x
  | .truth true => 1.0
  | .truth false => 0.0

/-- Whether an operand counts as true on its own. -/
def isTrue : Operand → Bool
  | .number x => x != 0.0 && !x.isNaN
  | .truth b => b

end Operand

namespace Comparison

/-- The relative error that equality allows for. -/
def tolerance : Float := 1e-9

/-- The greater of two numbers. If one of them is no number, it is the other one. -/
def greaterOf (x y : Float) : Float :=
  if x.isNaN then y else if x < y then y else x

/-- Whether two numbers are equal up to the tolerance. -/
def isClose (x y : Float) : Bool :=
  x == y || decide ((x - y).abs ≤ tolerance * greaterOf x.abs y.abs)

/-- Compares two numbers. -/
def test : Comparison → Float → Float → Bool
  | .greater, x, y => decide (x > y)
  | .less, x, y => decide (x < y)
  | .greaterOrEqual, x, y => decide (x ≥ y)
  | .lessOrEqual, x, y => decide (x ≤ y)
  | .equal, x, y => isClose x y

/-- Compares two operands. -/
def apply (c : Comparison) (left right : Operand) : Bool :=
  c.test left.toFloat right.toFloat

end Comparison

end TradingRules
