/-
# What can be wrong with the text of a strategy

A fault is reported without its place, as if it stood at the very beginning.
-/
import TradingRules.Text.Blank

namespace TradingRules

/-- The first fault of a text. -/
inductive SyntaxError where
  /-- No call gives the strategy a name. -/
  | nameNotFound
  /-- The condition of a block runs to the end of the text. -/
  | missingOpenBrace
  /-- The body of a block runs to the end of the text. -/
  | missingCloseBrace
  /-- The body of a block is blank. -/
  | emptyBlock (condition : String)
  /-- A condition nests its connectives too deep. -/
  | nestingLimit (levels : Nat)
  | emptyCondition
  | unknownComparison (symbol : String)
  | unknownExpression (clause : String)
  /-- A period does not fit into 64 bits. -/
  | invalidPeriod (clause : String)
  | periodNotPositive (clause : String)
  /-- A literal is too large for a finite number. -/
  | literalOutOfRange (clause : String)
deriving DecidableEq, Repr

namespace SyntaxError

/-- What the fault is. -/
def message : SyntaxError → String
  | .nameNotFound => "Strategy name not found"
  | .missingOpenBrace => "Unmatched if block: missing '\x7b'"
  | .missingCloseBrace => "Unmatched if block: missing '\x7d'"
  | .emptyBlock condition => "Empty action block for condition: " ++ condition
  | .nestingLimit levels => "Condition nesting exceeds " ++ toString levels ++ " levels"
  | .emptyCondition => "Empty condition"
  | .unknownComparison symbol => "Unknown comparison operator: " ++ symbol
  | .unknownExpression clause => "Unknown expression: " ++ clause
  | .invalidPeriod clause => "Invalid period: " ++ clause
  | .periodNotPositive clause => "Period must be positive: " ++ clause
  | .literalOutOfRange clause => "Literal out of range: " ++ clause

/-- The line that every fault is reported for. -/
def line : Nat := 1

/-- The column that every fault is reported for. -/
def column : Nat := 1

/-- The fault with its place. -/
def report (e : SyntaxError) : String :=
  "parse error at line " ++ toString line ++ ", column " ++ toString column ++ ": " ++ e.message

end SyntaxError

end TradingRules
