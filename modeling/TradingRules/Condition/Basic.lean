/-
# Conditions

A condition compares two expressions, takes one expression as true or false, or joins two conditions
by a connective.
-/
import TradingRules.Expression.Basic

namespace TradingRules

/-- How two numbers are compared. -/
inductive Comparison where
  | greater
  | less
  | greaterOrEqual
  | lessOrEqual
  | equal
deriving DecidableEq, Repr

namespace Comparison

/-- The symbol of a comparison. -/
def symbol : Comparison → String
  | .greater => ">"
  | .less => "<"
  | .greaterOrEqual => ">="
  | .lessOrEqual => "<="
  | .equal => "=="

/-- All comparisons, in their order. -/
def all : List Comparison := [.greater, .less, .greaterOrEqual, .lessOrEqual, .equal]

/-- The comparison with a given symbol. -/
def ofSymbol? (symbol : String) : Option Comparison :=
  all.find? (·.symbol = symbol)

end Comparison

/-- How two conditions are joined. -/
inductive Connective where
  | and
  | or
deriving DecidableEq, Repr

/-- The word of a connective. -/
def Connective.word : Connective → String
  | .and => "and"
  | .or => "or"

/-- A condition of the strategy language. -/
inductive Condition where
  | join (connective : Connective) (left right : Condition)
  | compare (left : Expression) (comparison : Comparison) (right : Expression)
  | holds (expression : Expression)
deriving DecidableEq, Repr

namespace Condition

/-- The number of levels of a condition, one for a condition without connectives. -/
def levels : Condition → Nat
  | .join _ left right => 1 + max left.levels right.levels
  | .compare .. => 1
  | .holds _ => 1

end Condition

end TradingRules
