/-
# Strategies as JSON

A strategy is an object with the members `name` and `rules`, a rule one with the members `condition`
and `actions`. Both are also read from lists that give these in order. The canonical text of a
strategy is its JSON in indented layout.
-/
import TradingRules.Strategy.Basic
import TradingRules.Condition.Json
import TradingRules.Action.Json
import TradingRules.Json.Print

namespace TradingRules

open Json (Reading required)

namespace Rule

/-- A rule as JSON. -/
def toJson (r : Rule) : Json :=
  .object [("condition", r.condition.toJson), ("actions", Action.listToJson r.actions)]

/-- What has been read of a rule. -/
structure Draft where
  condition : Option Condition := none
  actions : Option (List Action) := none

/-- How the fields of a rule are read. -/
def shape : Json.RecordShape Draft where
  names := ["condition", "actions"]
  store room place draft t :=
    match place with
    | 0 => return { draft with condition := some (← Condition.read room t) }
    | _ => return { draft with actions := some (← t.readList room Action.read) }

/-- The rule of a draft in which nothing is missing. -/
def Draft.complete (draft : Draft) : Reading Rule := do
  return ⟨← required draft.condition, ← required draft.actions⟩

/-- Reads a rule. -/
def read (room : Nat) (t : Json.Tree) : Reading Rule :=
  shape.read {} Draft.complete room t

end Rule

namespace Strategy

/-- A strategy as JSON. -/
def toJson (s : Strategy) : Json :=
  .object [("name", .string s.name), ("rules", .array (s.rules.map Rule.toJson))]

/-- The canonical text of a strategy. -/
def toText (s : Strategy) : String :=
  s.toJson.pretty

/-- What has been read of a strategy. -/
structure Draft where
  name : Option String := none
  rules : Option (List Rule) := none

/-- How the fields of a strategy are read. -/
def shape : Json.RecordShape Draft where
  names := ["name", "rules"]
  store room place draft t :=
    match place with
    | 0 => return { draft with name := some (← t.readText) }
    | _ => return { draft with rules := some (← t.readList room Rule.read) }

/-- The strategy of a draft in which nothing is missing. -/
def Draft.complete (draft : Draft) : Reading Strategy := do
  return ⟨← required draft.name, ← required draft.rules⟩

/-- Reads a strategy. -/
def read (room : Nat) (t : Json.Tree) : Reading Strategy :=
  shape.read {} Draft.complete room t

/-- The strategy of a JSON text. -/
def fromText (text : String) : Reading Strategy :=
  Json.readWith read text

end Strategy

end TradingRules
