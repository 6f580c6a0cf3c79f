/-
# Actions as JSON

An action is a tagged value whose only field holds its parameters as an object.
-/
import TradingRules.Action.Basic
import TradingRules.Json.Tagged

namespace TradingRules

namespace Parameter

/-- A parameter as JSON. -/
def toJson : Parameter → Json
  | .number x => .ofFloat x
  | .text s => .string s

/-- The parameter that a value is. -/
def ofJson? : Json → Option Parameter
  | .number n => some (.number n.toFloat)
  | .string s => some (.text s)
  | _ => none

end Parameter

namespace Parameters

/-- Parameters as JSON. -/
def toJson (parameters : Parameters) : Json :=
  .object (parameters.entries.map fun (name, value) => (name, value.toJson))

/-- The parameters that a value holds. -/
def ofJson? : Json → Option Parameters
  | .object members => do
    let entries ← members.mapM fun (name, value) => (Parameter.ofJson? value).map (name, ·)
    return Dictionary.ofList entries
  | _ => none

end Parameters

namespace Action

/-- All kinds of orders, in their order. -/
def kinds : List Kind := [.buy, .sell]

/-- The kind of order with a given name. -/
def Kind.ofWord? (word : String) : Option Kind :=
  kinds.find? (·.word = word)

/-- An action as JSON. -/
def toJson (a : Action) : Json :=
  .ofTagged a.kind.word [("parameters", Parameters.toJson a.parameters)]

/-- A list of actions as JSON. -/
def listToJson (actions : List Action) : Json :=
  .array (actions.map toJson)

/-- The action of a kind with the given body. -/
def ofBody? (kind : Kind) (body : Json.Body) : Option Action :=
  match body.fields? ["parameters"] with
  | some [parameters] => (Parameters.ofJson? parameters).map (⟨kind, ·⟩)
  | _ => none

/-- Reads an action. -/
def read (room : Nat) (t : Json.Tree) : Json.Reading Action := do
  let (kind, body) ← t.readTagged Kind.ofWord? room
  Json.required (ofBody? kind body)

end Action

end TradingRules
