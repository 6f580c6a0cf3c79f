/-
# What strategies mean

A strategy is evaluated for a signal and a market. The first rule whose condition is true fires.
-/
import TradingRules.Evaluation.Operand
import TradingRules.Market.Basic
import TradingRules.Strategy.Basic
import TradingRules.Text.Lowercase
import TradingRules.Text.Search

namespace TradingRules

/-- What a strategy is evaluated for. -/
structure Situation where
  signal : Signal := {}
  market : Market := {}
deriving DecidableEq, Repr

/-- Whether a text contains another when both are in lower case. -/
def containsIgnoringCase (text part : String) : Bool :=
  Text.occursIn (Text.lower part.toList) (Text.lower text.toList)

/-- The value of an expression. -/
def Expression.value (now : Situation) : Expression → Operand
  | .tweetContains text => .truth (containsIgnoringCase now.signal.text text)
  | .volume => .number now.market.volume
  | .price => .number now.market.price
  | .indicator i => .number (i.value now.market.prices)
  | .literal x => .number x

/-- Whether a condition is true. -/
def Condition.isTrue (now : Situation) : Condition → Bool
  | .join .and left right => left.isTrue now && right.isTrue now
  | .join .or left right => left.isTrue now || right.isTrue now
  | .compare left c right => c.apply (left.value now) (right.value now)
  | .holds e => (e.value now).isTrue

/-- A rule that fires, with its place among the rules. -/
structure Firing where
  place : Nat
  rule : Rule
deriving DecidableEq, Repr

/-- The first of some rules whose condition is true; they begin at the given place. -/
def firstTrue (now : Situation) (place : Nat) : List Rule → Option Firing
  | [] => none
  | r :: rest => if r.condition.isTrue now then some ⟨place, r⟩ else firstTrue now (place + 1) rest

/-- The rule of a strategy that fires. -/
def Strategy.firing? (s : Strategy) (now : Situation) : Option Firing :=
  firstTrue now 0 s.rules

/-- Whether a strategy fires. -/
def Strategy.fires (s : Strategy) (now : Situation) : Bool :=
  (s.firing? now).isSome

end TradingRules
