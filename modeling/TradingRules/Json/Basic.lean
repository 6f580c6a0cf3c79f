/-
# JSON values

A value keeps the members of its objects in the order in which they were written or built. Two
normal forms are offered on top: keeping only the last of several members with one name, in the
order of the names, and reading a member by its name.
-/
import TradingRules.Dictionary

namespace TradingRules

/-- A JSON number: an integer of at most 64 bits, or a number of double precision. -/
inductive Json.Number where
  | integer (n : Int)
  | float (x : Float)
deriving DecidableEq, Repr

/-- A JSON value. -/
inductive Json where
  | null
  | bool (b : Bool)
  | number (n : Json.Number)
  | string (s : String)
  | array (items : List Json)
  | object (members : List (String × Json))
deriving Repr, Inhabited

namespace Json

/-- The number of double precision that is nearest to a JSON number. -/
def Number.toFloat : Number → Float
  | .integer n => Float.ofInt n
  | .float x => x

/-- A finite number, or null for one that JSON cannot express. -/
def ofFloat (x : Float) : Json :=
  if x.isFinite then .number (.float x) else .null

/-- A natural number. -/
def ofNat (n : Nat) : Json :=
  .number (.integer n)

/-- The value of the first member with the given name. -/
def member? (name : String) : Json → Option Json
  | .object members => members.lookup name
  | _ => none

/-- The items of an array. -/
def items? : Json → Option (List Json)
  | .array items => some items
  | _ => none

mutual

/-- The value with the members of all its objects in ascending order of their names, where the last
of several members of one name counts. -/
def sorted : Json → Json
  | .array items => .array (sortedItems items)
  | .object members => .object (sortedMembers [] members)
  | .null => .null
  | .bool b => .bool b
  | .number n => .number n
  | .string s => .string s
termination_by structural j => j

/-- Sorts every item. -/
def sortedItems : List Json → List Json
  | [] => []
  | item :: rest => sorted item :: sortedItems rest
termination_by structural items => items

/-- Puts members one after the other among those that are already in order. -/
def sortedMembers (done : List (String × Json)) : List (String × Json) → List (String × Json)
  | [] => done
  | (name, value) :: rest => sortedMembers (Dictionary.putEntry name (sorted value) done) rest
termination_by structural members => members

end

end Json

end TradingRules
