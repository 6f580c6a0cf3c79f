/-
# Reading actions

A block may hold one call of `buy` and one of `sell`; the first of each counts, wherever it stands,
and the purchase is listed first. The arguments of a call are entries between commas: pairs of a
name and a value, or a single token.
-/
import TradingRules.Action.Basic
import TradingRules.Decimal.Reading
import TradingRules.Text.Scan
import TradingRules.Text.Search

namespace TradingRules

open TradingRules.Text

namespace Parameter

/-- The text without one percent sign at its end. -/
def withoutPercent (text : List Char) : List Char :=
  if text.getLast? = some '%' then text.dropLast else text

/-- Reads a value: a finite number, which may carry a percent sign, or else the text as it is. -/
def parse (text : List Char) : Parameter :=
  match Decimal.read (trim (withoutPercent text)) with
  | .ok x => if x.isFinite then .number x else .text (String.ofList text)
  | .error _ => .text (String.ofList text)

end Parameter

namespace Action

/-- What an argument entry says. -/
inductive Entry where
  /-- Nothing. -/
  | none
  /-- The parameter of the given name has the given value. -/
  | pair (name value : List Char)
  /-- The token is the given one, unless it is known already. -/
  | positional (token : List Char)
deriving DecidableEq, Repr

/-- Reads an entry: a pair is cut at its first two equality signs, and must have a name. -/
def Entry.parse (text : List Char) : Entry :=
  let entry := trim text
  if entry.isEmpty then .none
  else
    match (splitOn '=' entry).map trim with
    | name :: value :: _ => if name.isEmpty then .none else .pair name value
    | _ => .positional entry

/-- Enters an entry among the parameters. -/
def Entry.enter (parameters : Parameters) : Entry → Parameters
  | .none => parameters
  | .pair name value => parameters.insert (String.ofList name) (Parameter.parse value)
  | .positional token =>
    if parameters.contains tokenName then parameters
    else parameters.insert tokenName (.text (String.ofList token))

/-- Reads the arguments of a call. -/
def parseParameters (text : List Char) : Parameters :=
  ((splitOn ',' text).map Entry.parse).foldl Entry.enter Dictionary.empty

/-- The arguments of the call that begins a text; a purchase must have some. -/
def Kind.call (kind : Kind) (text : List Char) : Option (List Char) := do
  let rest ← afterWord kind.word.toList text
  let (arguments, _) ← parenthesized rest
  if kind = .buy ∧ arguments.isEmpty then Option.none else some arguments

/-- The first order of a kind in a text. -/
def Kind.find (kind : Kind) (text : List Char) : Option Action :=
  (firstAt kind.call text).map fun arguments => ⟨kind, parseParameters arguments⟩

/-- Reads the body of a block. -/
def parse (text : List Char) : List Action :=
  (Kind.find .buy text).toList ++ (Kind.find .sell text).toList

end Action

end TradingRules
