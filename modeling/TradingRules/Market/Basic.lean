/-
# Signals and markets

A signal is a text that has come in. A market is the latest price and volume of something traded,
with the history of its prices, oldest first. A market is built from observations in any order.
-/
import TradingRules.Market.Date

namespace TradingRules

/-- A text that has come in. -/
structure Signal where
  text : String := ""
deriving DecidableEq, Repr

/-- The latest price and volume, and the prices so far, oldest first. -/
structure Market where
  price : Float := 0.0
  volume : Float := 0.0
  prices : List Float := []
deriving DecidableEq, Repr

/-- The price and the volume of a day. -/
structure Observation where
  date : Date
  price : Float
  volume : Float
deriving DecidableEq, Repr

namespace Market

/-- Observations in the order of their dates; those of one day keep their order. -/
def chronological (observations : List Observation) : List Observation :=
  observations.mergeSort fun earlier later => earlier.date.notAfter later.date

/-- The market of observations that are in order: the last one gives the latest price and volume. -/
def ofHistory (history : List Observation) : Market :=
  match history.getLast? with
  | some latest => ⟨latest.price, latest.volume, history.map (·.price)⟩
  | none => {}

/-- The market of observations in any order. -/
def ofObservations (observations : List Observation) : Market :=
  ofHistory (chronological observations)

end Market

end TradingRules
