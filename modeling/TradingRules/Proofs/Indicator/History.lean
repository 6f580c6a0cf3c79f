/-
# Indicators over a growing history

An indicator looks at its history by positions that are counted from the end. They are always within
the history: the indicator is computed as well if a difference below zero and a cut behind the end
have no result. Of a history that grows an exponential average follows the new prices, from the value
that it had before.
-/
import Mathlib
import TradingRules.Indicator

namespace TradingRules.Indicator

/-! ## Positions -/

/-- The difference of two positions; there is none below zero. -/
def difference? (a b : Nat) : Option Nat :=
  if b ≤ a then some (a - b) else none

/-- The entries from a position on; there are none from behind the end. -/
def from? {α : Type} (position : Nat) (entries : List α) : Option (List α) :=
  if position ≤ entries.length then some (entries.drop position) else none

/-- The entries up to a position; there are none up to behind the end. -/
def upTo? {α : Type} (position : Nat) (entries : List α) : Option (List α) :=
  if position ≤ entries.length then some (entries.take position) else none

theorem difference?_of_le {a b : Nat} (h : b ≤ a) : difference? a b = some (a - b) :=
  if_pos h

theorem from?_of_le {α : Type} {position : Nat} {entries : List α} (h : position ≤ entries.length) :
    from? position entries = some (entries.drop position) :=
  if_pos h

theorem upTo?_of_le {α : Type} {position : Nat} {entries : List α} (h : position ≤ entries.length) :
    upTo? position entries = some (entries.take position) :=
  if_pos h

/-! ## Indicators on checked positions -/

/-- The relative strength index, on checked positions. -/
def rsi? (period : UInt64) (prices : List Float) : Option Float :=
  if period = 0 ∨ prices.length ≤ period.toNat then some neutral
  else do
    let behind ← difference? prices.length period.toNat
    let start ← difference? behind 1
    let recent := changes (← from? start prices)
    return strength (gains recent / period.toFloat) (losses recent / period.toFloat)

/-- The simple moving average, on checked positions. -/
def sma? (period : UInt64) (prices : List Float) : Option Float :=
  if period = 0 ∨ prices.length < period.toNat then some 0.0
  else do
    let start ← difference? prices.length period.toNat
    return mean period (← from? start prices)

/-- The exponential moving average, on checked positions. -/
def ema? (period : UInt64) (prices : List Float) : Option Float :=
  if period = 0 ∨ prices.length < period.toNat then some 0.0
  else do
    let start ← sma? period (← upTo? period.toNat prices)
    return (← from? period.toNat prices).foldl (follow (weight period)) start

/-- The value of an indicator, on checked positions. -/
def value? (i : Indicator) (prices : List Float) : Option Float :=
  match i.kind with
  | .rsi => rsi? i.period prices
  | .sma => sma? i.period prices
  | .ema => ema? i.period prices

theorem rsi?_eq (period : UInt64) (prices : List Float) :
    rsi? period prices = some (rsi period prices) := by
  unfold rsi? rsi
  split_ifs with hshort
  · rfl
  · obtain ⟨-, hlong⟩ := not_or.mp hshort
    have hperiod : period.toNat ≤ prices.length := by omega
    -- the history is longer than the period, so that one price more can be left
    have hone : 1 ≤ prices.length - period.toNat := by omega
    have hstart : prices.length - period.toNat - 1 ≤ prices.length := by omega
    rw [difference?_of_le hperiod, Option.bind_eq_bind, Option.bind_some, difference?_of_le hone,
      Option.bind_eq_bind, Option.bind_some, from?_of_le hstart]
    rfl

theorem sma?_eq (period : UInt64) (prices : List Float) :
    sma? period prices = some (sma period prices) := by
  unfold sma? sma
  split_ifs with hshort
  · rfl
  · obtain ⟨-, hlong⟩ := not_or.mp hshort
    rw [difference?_of_le (not_lt.mp hlong), Option.bind_eq_bind, Option.bind_some,
      from?_of_le (Nat.sub_le _ _)]
    rfl

theorem ema?_eq (period : UInt64) (prices : List Float) :
    ema? period prices = some (ema period prices) := by
  unfold ema? ema
  split_ifs with hshort
  · rfl
  · obtain ⟨-, hlong⟩ := not_or.mp hshort
    have hperiod : period.toNat ≤ prices.length := not_lt.mp hlong
    rw [upTo?_of_le hperiod, Option.bind_eq_bind, Option.bind_some, sma?_eq, Option.bind_eq_bind,
      Option.bind_some, from?_of_le hperiod]
    rfl

/-- All positions of an indicator are within its history. -/
theorem value?_eq (i : Indicator) (prices : List Float) : i.value? prices = some (i.value prices) := by
  unfold value? value
  cases i.kind with
  | rsi => exact rsi?_eq i.period prices
  | sma => exact sma?_eq i.period prices
  | ema => exact ema?_eq i.period prices

/-! ## Short histories -/

/-- How many prices an indicator needs. -/
def needed (i : Indicator) : Nat :=
  match i.kind with
  | .rsi => i.period.toNat + 1
  | .sma | .ema => i.period.toNat

/-- The value of an indicator without the prices that it needs. -/
def fallback (i : Indicator) : Float :=
  match i.kind with
  | .rsi => 50.0
  | .sma | .ema => 0.0

theorem value_of_short {i : Indicator} {prices : List Float}
    (h : i.period = 0 ∨ prices.length < i.needed) : i.value prices = i.fallback := by
  obtain ⟨kind, period⟩ := i
  cases kind with
  | rsi => exact if_pos (h.imp_right Nat.lt_succ_iff.mp)
  | sma => exact if_pos h
  | ema => exact if_pos h

/-! ## Growing histories -/

/-- Prices behind enough others are followed from the average that these have. -/
theorem ema_append {period : UInt64} {earlier : List Float} (hperiod : period ≠ 0)
    (hlong : period.toNat ≤ earlier.length) (later : List Float) :
    ema period (earlier ++ later) = later.foldl (follow (weight period)) (ema period earlier) := by
  have hshort : ¬ (period = 0 ∨ earlier.length < period.toNat) :=
    not_or.mpr ⟨hperiod, not_lt.mpr hlong⟩
  have hshort' : ¬ (period = 0 ∨ (earlier ++ later).length < period.toNat) := by
    rw [List.length_append]
    exact not_or.mpr ⟨hperiod, by omega⟩
  unfold ema
  rw [if_neg hshort, if_neg hshort', List.take_append_of_le_length hlong,
    List.drop_append_of_le_length hlong, List.foldl_append]

/-- An exponential average starts as a simple one. -/
theorem ema_eq_sma {period : UInt64} {prices : List Float} (h : prices.length = period.toNat) :
    ema period prices = sma period prices := by
  by_cases hshort : period = 0 ∨ prices.length < period.toNat
  · unfold ema sma
    rw [if_pos hshort, if_pos hshort]
  · have hall : prices.drop period.toNat = [] := List.drop_eq_nil_of_le h.le
    unfold ema
    rw [if_neg hshort, List.take_of_length_le h.le, hall]
    rfl

/-- **How indicators look at a history.** No position is below zero or behind the end, whatever the
period. A period of zero and a history that is too short give a fixed value. Once an exponential
average has a history of its period, it follows all further prices one by one, each with a weight of
two over the period and one; with a history of exactly its period it is the simple average. -/
theorem history_exact :
    (∀ (i : Indicator) (prices : List Float), i.value? prices = some (i.value prices)) ∧
    (∀ (i : Indicator) (prices : List Float), i.period = 0 ∨ prices.length < i.needed →
      i.value prices = i.fallback) ∧
    (∀ (period : UInt64) (earlier later : List Float), period ≠ 0 →
      period.toNat ≤ earlier.length → ema period (earlier ++ later) =
        later.foldl
          (fun average price => (price - average) * (2.0 / (period.toFloat + 1.0)) + average)
          (ema period earlier)) ∧
    ∀ (period : UInt64) (prices : List Float), prices.length = period.toNat →
      ema period prices = sma period prices := by
  refine ⟨value?_eq, fun _ _ => value_of_short, ?_, fun _ _ => ema_eq_sma⟩
  intro period earlier later hperiod hlong
  exact ema_append hperiod hlong later

/-- The greatest period, a history that is one price short, and an average that goes on. -/
theorem history_of_samples :
    value ⟨.rsi, 18446744073709551615⟩ [1.0, 2.0, 3.0] = 50.0 ∧
      value ⟨.ema, 4⟩ [1.0, 2.0, 3.0] = 0.0 ∧
      ema 2 ([10.0, 20.0] ++ [30.0]) =
        (30.0 - ema 2 [10.0, 20.0]) * (2.0 / ((2 : UInt64).toFloat + 1.0)) + ema 2 [10.0, 20.0] ∧
      ema 3 [10.0, 20.0, 30.0] = sma 3 [10.0, 20.0, 30.0] := by
  obtain ⟨-, hshort, hgrowing, hstart⟩ := history_exact
  exact ⟨hshort ⟨.rsi, 18446744073709551615⟩ _ (Or.inr (by decide)),
    hshort ⟨.ema, 4⟩ _ (Or.inr (by decide)),
    hgrowing 2 [10.0, 20.0] [30.0] (by decide) (by decide), hstart 3 _ (by decide)⟩

end TradingRules.Indicator
