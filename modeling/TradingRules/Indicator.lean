/-
# Indicators

An indicator condenses a price history, oldest price first, into one number for the latest price.
With too short a history, or a period of zero, it has a fixed value.
-/

namespace TradingRules

/-- What an indicator computes. -/
inductive Indicator.Kind where
  /-- The relative strength index. -/
  | rsi
  /-- The simple moving average. -/
  | sma
  /-- The exponential moving average. -/
  | ema
deriving DecidableEq, Repr

/-- An indicator over a number of bars. -/
structure Indicator where
  kind : Indicator.Kind
  period : UInt64
deriving DecidableEq, Repr

namespace Indicator

/-- The last `n` entries of a list. -/
def window {α : Type} (n : Nat) (entries : List α) : List α :=
  entries.drop (entries.length - n)

/-- The change from each price to the next. -/
def changes (prices : List Float) : List Float :=
  List.zipWith (fun earlier later => later - earlier) prices prices.tail

/-- The sum of the rises. -/
def gains (changes : List Float) : Float :=
  (changes.filter (· > 0.0)).foldl (· + ·) 0.0

/-- The sum of the sizes of all changes that are no rises. -/
def losses (changes : List Float) : Float :=
  (changes.filter (fun change => !(change > 0.0))).foldl (fun sum change => sum + change.abs) 0.0

/-- The relative strength of an average gain over an average loss, from 0 to 100. -/
def strength (averageGain averageLoss : Float) : Float :=
  if averageLoss == 0.0 then 100.0 else 100.0 - 100.0 / (1.0 + averageGain / averageLoss)

/-- The value of the relative strength index when it cannot be computed. -/
def neutral : Float := 50.0

/-- The relative strength index: plain averages over the last `period` changes. -/
def rsi (period : UInt64) (prices : List Float) : Float :=
  if period = 0 ∨ prices.length ≤ period.toNat then neutral
  else
    let recent := changes (window (period.toNat + 1) prices)
    strength (gains recent / period.toFloat) (losses recent / period.toFloat)

/-- The mean of a number of prices, which are summed from the left onto a negative zero. -/
def mean (period : UInt64) (prices : List Float) : Float :=
  prices.foldl (· + ·) (-0.0) / period.toFloat

/-- The simple moving average: the mean of the last `period` prices. -/
def sma (period : UInt64) (prices : List Float) : Float :=
  if period = 0 ∨ prices.length < period.toNat then 0.0
  else mean period (window period.toNat prices)

/-- The weight of the latest price in an exponential average. -/
def weight (period : UInt64) : Float :=
  2.0 / (period.toFloat + 1.0)

/-- Moves an exponential average towards a price. -/
def follow (weight average price : Float) : Float :=
  (price - average) * weight + average

/-- The exponential moving average: it starts with the simple average of the first `period` prices
and follows the others. -/
def ema (period : UInt64) (prices : List Float) : Float :=
  if period = 0 ∨ prices.length < period.toNat then 0.0
  else
    let start := sma period (prices.take period.toNat)
    (prices.drop period.toNat).foldl (follow (weight period)) start

/-- The value of an indicator over a price history. -/
def value (i : Indicator) (prices : List Float) : Float :=
  match i.kind with
  | .rsi => rsi i.period prices
  | .sma => sma i.period prices
  | .ema => ema i.period prices

/-- The keyword of a kind of indicator. -/
def Kind.keyword : Kind → String
  | .rsi => "rsi"
  | .sma => "sma"
  | .ema => "ema"

/-- The title of a kind of indicator. -/
def Kind.title : Kind → String
  | .rsi => "RSI"
  | .sma => "SMA"
  | .ema => "EMA"

/-- The title of an indicator with its period. -/
def title (i : Indicator) : String :=
  i.kind.title ++ "(" ++ toString i.period.toNat ++ ")"

end Indicator

end TradingRules
