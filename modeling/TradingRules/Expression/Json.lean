/-
# Expressions as JSON

An expression is a tagged value with at most one field.
-/
import TradingRules.Expression.Basic
import TradingRules.Json.Tagged

namespace TradingRules.Expression

/-- The fields of an expression by their names. -/
def fields : Expression → List (String × Json)
  | .tweetContains text => [("value", .string text)]
  | .volume | .price => []
  | .indicator i => [("period", .ofNat i.period.toNat)]
  | .literal value => [("value", .ofFloat value)]

/-- An expression as JSON. -/
def toJson (e : Expression) : Json :=
  .ofTagged e.tag.name e.fields

/-- The kind of expression that a value names. -/
def Tag.ofJson? : Json → Option Tag :=
  Json.tagAmong? tags Tag.name

/-- The names of the fields of a kind of expression. -/
def Tag.fieldNames : Tag → List String
  | .tweetContains | .literal => ["value"]
  | .volume | .price => []
  | .indicator _ => ["period"]

/-- The expression of a kind with the given values of its fields. -/
def ofFields? : Tag → List Json → Option Expression
  | .tweetContains, [value] => value.text?.map .tweetContains
  | .volume, [] => some .volume
  | .price, [] => some .price
  | .indicator kind, [period] => period.word?.map fun period => .indicator ⟨kind, period⟩
  | .literal, [value] => value.float?.map .literal
  | _, _ => none

/-- The expression that a value is. -/
def ofJson? (j : Json) : Option Expression := do
  let (tag, body) ← j.tagged? Tag.ofJson?
  ofFields? tag (← body.fields? tag.fieldNames)

end TradingRules.Expression
