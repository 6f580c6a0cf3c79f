/-
# Strategies

A strategy is a named list of rules. A rule says which orders to give when a condition holds.
-/
import TradingRules.Condition.Basic
import TradingRules.Action.Basic

namespace TradingRules

/-- Orders under a condition. -/
structure Rule where
  condition : Condition
  actions : List Action
deriving DecidableEq, Repr

/-- A named list of rules, in the order in which they are tried. -/
structure Strategy where
  name : String
  rules : List Rule
deriving DecidableEq, Repr

/-- Whether a strategy can never fire, having no rules. -/
def Strategy.isInert (s : Strategy) : Bool :=
  s.rules.isEmpty

/-! ## Agreement

Two strategies agree when they are alike up to the sign of zeros. A number that is none agrees with
nothing. -/

/-- Whether two expressions agree. -/
def Expression.agrees : Expression → Expression → Bool
  | .literal x, .literal y => x == y
  | e, e' => e = e'

/-- Whether two conditions agree. -/
def Condition.agrees : Condition → Condition → Bool
  | .join c left right, .join c' left' right' => c = c' && left.agrees left' && right.agrees right'
  | .compare left c right, .compare left' c' right' =>
    left.agrees left' && c = c' && right.agrees right'
  | .holds e, .holds e' => e.agrees e'
  | _, _ => false

/-- Whether two parameters agree. -/
def Parameter.agrees : Parameter → Parameter → Bool
  | .number x, .number y => x == y
  | .text s, .text s' => s = s'
  | _, _ => false

/-- Whether two lists agree item by item. -/
def listAgrees {α : Type} (agrees : α → α → Bool) : List α → List α → Bool
  | [], [] => true
  | a :: rest, a' :: rest' => agrees a a' && listAgrees agrees rest rest'
  | _, _ => false

/-- Whether two actions agree. -/
def Action.agrees (a a' : Action) : Bool :=
  a.kind = a'.kind &&
    listAgrees (fun e e' => e.1 = e'.1 && e.2.agrees e'.2)
      a.parameters.entries a'.parameters.entries

/-- Whether two rules agree. -/
def Rule.agrees (r r' : Rule) : Bool :=
  r.condition.agrees r'.condition && listAgrees Action.agrees r.actions r'.actions

/-- Whether two strategies agree. -/
def Strategy.agrees (s s' : Strategy) : Bool :=
  s.name = s'.name && listAgrees Rule.agrees s.rules s'.rules

end TradingRules
