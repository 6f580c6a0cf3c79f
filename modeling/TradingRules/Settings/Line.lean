/-
# Lines of a settings file

A line opens a section, `[name]`, or gives a key with a value, `key = value` or `key: value`, or a
key alone. A semicolon or a number sign begins a comment. Names and keys are in lower case.
-/
import TradingRules.Text.Lowercase
import TradingRules.Text.Scan

namespace TradingRules.Settings

open Text

/-- What is wrong with a line, with the number of the line. -/
inductive Error where
  | unclosedSection (line : Nat)
  /-- Nothing stands before the delimiter, which so is the first character. -/
  | emptyKey (line : Nat)
deriving DecidableEq, Repr

/-- The wording of an error. -/
def Error.message : Error → String
  | .unclosedSection line =>
    "line " ++ toString line ++
      ": Found opening bracket for section name but no closing bracket"
  | .emptyKey line => "line " ++ toString line ++ ":0: Key cannot be empty"

/-- What a line says. -/
inductive Line where
  | section (name : String)
  | setting (key : String) (value : Option String)
deriving DecidableEq, Repr

/-- Whether a character begins a comment. -/
def beginsComment (c : Char) : Bool :=
  c == ';' || c == '#'

/-- Whether a character divides a key from its value. -/
def isDelimiter (c : Char) : Bool :=
  c == '=' || c == ':'

/-- The text of a line without a comment and without the blanks around it. -/
def content (line : List Char) : List Char :=
  trim ((trim line).takeWhile fun c => !beginsComment c)

/-- A name as it is kept: without the blanks around it and in lower case. -/
def fold (name : List Char) : String :=
  String.ofList (lower (trim name))

/-- The text up to the last closing bracket. -/
def beforeLastBracket (text : List Char) : Option (List Char) :=
  match text.reverse.dropWhile (· ≠ ']') with
  | [] => none
  | _ :: before => some before.reverse

/-- Reads the line with the given number; nothing is read from a blank line. -/
def Line.read (number : Nat) (line : List Char) : Except Error (Option Line) :=
  match content line with
  | [] => .ok none
  | '[' :: rest =>
    match beforeLastBracket rest with
    | some name => .ok (some (.section (fold name)))
    | none => .error (.unclosedSection number)
  | text =>
    match takeUntil isDelimiter text with
    | none => .ok (some (.setting (fold text) none))
    | some (key, value) =>
      if (trim key).isEmpty then .error (.emptyKey number)
      else .ok (some (.setting (fold key) (some (String.ofList (trim (value.drop 1))))))

end TradingRules.Settings
