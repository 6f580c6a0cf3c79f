/-
# Sets of characters as ranges of code points

Character properties are kept as closed ranges, ascending and apart, so that one linear look-up
serves every table. The look-up stops at the first range above the code point it is asked about.
-/

namespace TradingRules.Text

/-- Closed ranges of code points, ascending and apart. -/
abbrev Ranges := List (Nat × Nat)

/-- Whether a code point lies in one of the ranges. -/
def Ranges.has : Ranges → Nat → Bool
  | [], _ => false
  | (low, high) :: rest, n => if n < low then false else n ≤ high || Ranges.has rest n

/-- The ranges ascend and no two of them touch. -/
def Ranges.wellFormed : Ranges → Bool
  | [] => true
  | [(low, high)] => low ≤ high
  | (low, high) :: (low', high') :: rest =>
    low ≤ high && high + 1 < low' && Ranges.wellFormed ((low', high') :: rest)

end TradingRules.Text
