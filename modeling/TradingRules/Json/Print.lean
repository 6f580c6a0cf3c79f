/-
# Writing JSON

Values are written compactly, without any blank, or prettily, with two blanks of indentation for
each level. Every writer puts its text in front of a given text, so that writing takes time in
proportion to what is written.
-/
import TradingRules.Json.Basic
import TradingRules.Decimal.Notation

namespace TradingRules.Json

open TradingRules.Decimal

/-- A digit of a number in base sixteen. -/
def hexDigit (n : Nat) : Char :=
  Nat.digitChar (n % 16)

/-- How a character is written inside a string: quotes, backslashes and control characters are
escaped, and nothing else is. -/
def escape (c : Char) : List Char :=
  if c = '"' then ['\\', '"']
  else if c = '\\' then ['\\', '\\']
  else if c = '\x08' then ['\\', 'b']
  else if c = '\t' then ['\\', 't']
  else if c = '\n' then ['\\', 'n']
  else if c = '\x0c' then ['\\', 'f']
  else if c = '\r' then ['\\', 'r']
  else if c.toNat < 0x20 then ['\\', 'u', '0', '0', hexDigit (c.toNat / 16), hexDigit c.toNat]
  else [c]

/-- Writes the characters of a string. -/
def writeChars : List Char → List Char → List Char
  | [], after => after
  | c :: rest, after => escape c ++ writeChars rest after

/-- Writes a string in its quotes. -/
def writeString (s : String) (after : List Char) : List Char :=
  '"' :: writeChars s.toList ('"' :: after)

/-- The text of an integer. -/
def integerText (n : Int) : List Char :=
  if n < 0 then '-' :: digitsOf n.natAbs else digitsOf n.natAbs

/-- The text of a number. -/
def Number.text : Number → List Char
  | .integer n => integerText n
  | .float x => Decimal.write x

mutual

/-- Writes a value without any blank. -/
def writeCompact : Json → List Char → List Char
  | .null, after => "null".toList ++ after
  | .bool true, after => "true".toList ++ after
  | .bool false, after => "false".toList ++ after
  | .number n, after => n.text ++ after
  | .string s, after => writeString s after
  | .array items, after => '[' :: compactItems true items (']' :: after)
  | .object members, after => '\x7b' :: compactMembers true members ('\x7d' :: after)
termination_by structural j => j

/-- Writes items, each but the first after a comma. -/
def compactItems (first : Bool) : List Json → List Char → List Char
  | [], after => after
  | item :: rest, after =>
    let text := writeCompact item (compactItems false rest after)
    if first then text else ',' :: text
termination_by structural items => items

/-- Writes members, each but the first after a comma. -/
def compactMembers (first : Bool) : List (String × Json) → List Char → List Char
  | [], after => after
  | (name, value) :: rest, after =>
    let text := writeString name (':' :: writeCompact value (compactMembers false rest after))
    if first then text else ',' :: text
termination_by structural members => members

end

/-- Starts a line of the given level. -/
def newLine (level : Nat) (after : List Char) : List Char :=
  '\n' :: (List.replicate (2 * level) ' ' ++ after)

mutual

/-- Writes a value of the given level over several lines; an empty list or object takes none. -/
def writePretty (level : Nat) : Json → List Char → List Char
  | .null, after => "null".toList ++ after
  | .bool true, after => "true".toList ++ after
  | .bool false, after => "false".toList ++ after
  | .number n, after => n.text ++ after
  | .string s, after => writeString s after
  | .array [], after => '[' :: ']' :: after
  | .array (item :: rest), after =>
    '[' :: prettyItems (level + 1) true (item :: rest) (newLine level (']' :: after))
  | .object [], after => '\x7b' :: '\x7d' :: after
  | .object (member :: rest), after =>
    '\x7b' :: prettyMembers (level + 1) true (member :: rest) (newLine level ('\x7d' :: after))
termination_by structural j => j

/-- Writes each item on a line of its own. -/
def prettyItems (level : Nat) (first : Bool) : List Json → List Char → List Char
  | [], after => after
  | item :: rest, after =>
    let text := newLine level (writePretty level item (prettyItems level false rest after))
    if first then text else ',' :: text
termination_by structural items => items

/-- Writes each member on a line of its own. -/
def prettyMembers (level : Nat) (first : Bool) : List (String × Json) → List Char → List Char
  | [], after => after
  | (name, value) :: rest, after =>
    let text := newLine level (writeString name
      (':' :: ' ' :: writePretty level value (prettyMembers level false rest after)))
    if first then text else ',' :: text
termination_by structural members => members

end

/-- The compact text of a value. -/
def compact (j : Json) : String :=
  String.ofList (writeCompact j [])

/-- The pretty text of a value. -/
def pretty (j : Json) : String :=
  String.ofList (writePretty 0 j [])

end TradingRules.Json
