/-
# Expressions

An expression is what a condition tests or compares: the text of a signal, the market as it is, an
indicator over the price history, or a number.
-/
import TradingRules.Indicator

namespace TradingRules

/-- An expression of the strategy language. -/
inductive Expression where
  /-- The signal contains a text, in whatever case. -/
  | tweetContains (text : String)
  /-- The traded volume. -/
  | volume
  /-- The latest price. -/
  | price
  | indicator (i : Indicator)
  | literal (value : Float)
deriving DecidableEq, Repr

/-- The kinds of expressions, under which they are written and stored. -/
inductive Expression.Tag where
  | tweetContains
  | volume
  | price
  | indicator (kind : Indicator.Kind)
  | literal
deriving DecidableEq, Repr

namespace Expression

/-- The kind of an expression. -/
def tag : Expression → Tag
  | .tweetContains _ => .tweetContains
  | .volume => .volume
  | .price => .price
  | .indicator i => .indicator i.kind
  | .literal _ => .literal

/-- All kinds of expressions, in their order. -/
def tags : List Tag :=
  [.tweetContains, .volume, .price, .indicator .rsi, .indicator .sma, .indicator .ema, .literal]

/-- The name of a kind of expression. -/
def Tag.name : Tag → String
  | .tweetContains => "tweet.contains"
  | .volume => "token.volume"
  | .price => "price"
  | .indicator kind => kind.keyword
  | .literal => "literal"

end Expression

end TradingRules
