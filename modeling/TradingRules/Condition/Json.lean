/-
# Conditions as JSON

A condition is a tagged value; the fields of a connective are conditions again.
-/
import TradingRules.Condition.Basic
import TradingRules.Expression.Json

namespace TradingRules

namespace Comparison

/-- A comparison as JSON. -/
def toJson (c : Comparison) : Json :=
  .string c.symbol

/-- The comparison that a value is: its symbol, or an object whose only member has this name and
holds nothing. -/
def ofJson? : Json → Option Comparison
  | .string symbol => ofSymbol? symbol
  | .object [(symbol, .null)] => ofSymbol? symbol
  | .object [(symbol, .object [])] => ofSymbol? symbol
  | _ => none

end Comparison

namespace Condition

/-- The kinds of conditions, under which they are stored. -/
inductive Tag where
  | join (connective : Connective)
  | compare
  | holds
deriving DecidableEq, Repr

/-- All kinds of conditions, in their order. -/
def tags : List Tag := [.join .and, .join .or, .compare, .holds]

/-- The name of a kind of condition. -/
def Tag.name : Tag → String
  | .join c => c.word
  | .compare => "comparison"
  | .holds => "function"

/-- A condition as JSON. -/
def toJson : Condition → Json
  | .join c left right =>
    .ofTagged (Tag.join c).name [("left", left.toJson), ("right", right.toJson)]
  | .compare left c right =>
    .ofTagged Tag.compare.name
      [("left", left.toJson), ("operator", c.toJson), ("right", right.toJson)]
  | .holds e => .ofTagged Tag.holds.name [("expression", e.toJson)]

/-- The kind of condition with a given name. -/
def Tag.find? (name : String) : Option Tag :=
  tags.find? (·.name = name)

/-- The kind of condition that a value names. -/
def Tag.ofJson? : Json → Option Tag :=
  Json.tagAmong? tags Tag.name

/-- The condition of a kind with the given body. -/
def ofBody? (tag : Tag) (body : Json.Body) : Option Condition :=
  match tag with
  | .join c =>
    match _h : body.fields? ["left", "right"] with
    | some [left, right] =>
      match _hl : left.tagged? Tag.ofJson?, _hr : right.tagged? Tag.ofJson? with
      | some (leftTag, leftBody), some (rightTag, rightBody) => do
        return .join c (← ofBody? leftTag leftBody) (← ofBody? rightTag rightBody)
      | _, _ => none
    | _ => none
  | .compare =>
    match body.fields? ["left", "operator", "right"] with
    | some [left, comparison, right] => do
      return .compare (← Expression.ofJson? left) (← Comparison.ofJson? comparison)
        (← Expression.ofJson? right)
    | _ => none
  | .holds =>
    match body.fields? ["expression"] with
    | some [expression] => (Expression.ofJson? expression).map .holds
    | _ => none
termination_by sizeOf body
decreasing_by
  · have := Json.sizeOf_tagged?_le _hl
    have := Json.sizeOf_fields?_lt _h List.mem_cons_self
    omega
  · have := Json.sizeOf_tagged?_le _hr
    have := Json.sizeOf_fields?_lt _h (List.mem_cons_of_mem _ List.mem_cons_self)
    omega

/-- The condition that a value is. -/
def ofJson? (j : Json) : Option Condition := do
  let (tag, body) ← j.tagged? Tag.ofJson?
  ofBody? tag body

/-- Reads a condition. -/
def read (room : Nat) (t : Json.Tree) : Json.Reading Condition := do
  let (tag, body) ← t.readTagged Tag.find? room
  Json.required (ofBody? tag body)

end Condition

end TradingRules
