/-
# Actions

An action is an order to buy or to sell, with named parameters. A few names have a meaning of their
own.
-/
import TradingRules.Dictionary

namespace TradingRules

/-- The value of a parameter. A percentage is kept as the number in front of the sign. -/
inductive Parameter where
  | number (x : Float)
  | text (s : String)
deriving DecidableEq, Repr

namespace Parameter

/-- The number that a parameter is. -/
def number? : Parameter → Option Float
  | .number x => some x
  | .text _ => none

/-- The text that a parameter is. -/
def text? : Parameter → Option String
  | .number _ => none
  | .text s => some s

end Parameter

/-- The parameters of an action by their names. -/
abbrev Parameters := Dictionary Parameter

/-- What is ordered. -/
inductive Action.Kind where
  | buy
  | sell
deriving DecidableEq, Repr

/-- An order. -/
structure Action where
  kind : Action.Kind
  parameters : Parameters
deriving DecidableEq, Repr

namespace Action

/-- The word for a kind of order. -/
def Kind.word : Kind → String
  | .buy => "buy"
  | .sell => "sell"

/-- The name of the parameter that says what is traded. -/
def tokenName : String := "token"

/-- What is traded. -/
def token? (a : Action) : Option String :=
  (a.parameters.get? tokenName).bind Parameter.text?

/-- How much is traded. -/
def quantity? (a : Action) : Option Float :=
  (a.parameters.get? "qty").bind Parameter.number?

/-- The loss at which to stop, in percentage points. -/
def stopLoss? (a : Action) : Option Float :=
  (a.parameters.get? "sl").bind Parameter.number?

/-- The profit to take, in percentage points. -/
def takeProfit? (a : Action) : Option Float :=
  (a.parameters.get? "tp").bind Parameter.number?

end Action

end TradingRules
