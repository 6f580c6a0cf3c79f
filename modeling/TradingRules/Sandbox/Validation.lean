/-
# Validation

A tree is accepted when its structure and then its content are in order. Of a strategy, every
condition and every action is checked as a tree of its own, and the content of the whole is scanned,
the name included.
-/
import TradingRules.Sandbox.Content
import TradingRules.Sandbox.Limits
import TradingRules.Sandbox.Structure
import TradingRules.Strategy.Json

namespace TradingRules.Sandbox

/-- Refuses a tree that is not in order. -/
def validate (limits : Limits) (root : Json) : Except Error Unit := do
  checkStructure limits.maxDepth root
  scanContent root

/-- The trees of a rule: its condition and its actions. -/
def ruleTrees (r : Rule) : List Json :=
  r.condition.toJson.sorted :: r.actions.map fun a => a.toJson.sorted

/-- Refuses the first tree whose structure is not in order. -/
def checkStructures (maxDepth : Nat) : List Json → Except Error Unit
  | [] => .ok ()
  | root :: rest => do
    checkStructure maxDepth root
    checkStructures maxDepth rest

/-- Refuses a strategy that is not in order. -/
def validateStrategy (limits : Limits) (s : Strategy) : Except Error Unit := do
  checkStructures limits.maxDepth (s.rules.flatMap ruleTrees)
  scanContent s.toJson.sorted

end TradingRules.Sandbox
