/-
# Limits

How deep a tree may be and how many milliseconds an evaluation may take.
-/

namespace TradingRules.Sandbox

/-- The limits under which the sandbox works. -/
structure Limits where
  maxDepth : Nat := 50
  timeoutMs : Nat := 1000
deriving DecidableEq, Repr

end TradingRules.Sandbox
