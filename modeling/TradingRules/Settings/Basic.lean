/-
# Settings

Settings are grouped by sections; a line belongs to the section that was opened last, and of several
lines with one key the last counts. Sections and keys are looked up without regard to case.
-/
import TradingRules.Dictionary
import TradingRules.Settings.Line
import TradingRules.Text.Natural
import TradingRules.Text.Search

namespace TradingRules

/-- The settings of all sections; a key may have no value. -/
structure Settings where
  sections : Dictionary (Dictionary (Option String)) := .empty
deriving DecidableEq, Repr

namespace Settings

open Text

/-- The section of lines that precede all sections. -/
def defaultSection : String := "default"

/-- The settings of a section. -/
def inSection (s : Settings) (name : String) : Dictionary (Option String) :=
  (s.sections.get? name).getD .empty

/-- The settings with one key set. -/
def set (s : Settings) (name key : String) (value : Option String) : Settings where
  sections := s.sections.insert name ((s.inSection name).insert key value)

/-- Goes through lines, the first of which has the given number, in a section. -/
def readLines (s : Settings) (name : String) (number : Nat) :
    List (List Char) → Except Error Settings
  | [] => .ok s
  | line :: rest => do
    match ← Line.read number line with
    | none => s.readLines name (number + 1) rest
    | some (.section name) => s.readLines name (number + 1) rest
    | some (.setting key value) => (s.set name key value).readLines name (number + 1) rest

/-- The settings of a text. -/
def parse (text : String) : Except Error Settings :=
  readLines {} defaultSection 1 (splitOn '\n' text.toList)

/-- The setting of a key, which may have no value. -/
def get? (s : Settings) (name key : String) : Option (Option String) :=
  (s.inSection (String.ofList (lower name.toList))).get? (String.ofList (lower key.toList))

/-- The number that a key is set to; a key without a value counts as one that is not set. -/
def natural? (s : Settings) (name key : String) : Except NaturalError (Option Nat) :=
  match s.get? name key with
  | some (some value) => (readNatural value.toList).map some
  | _ => .ok none

end Settings

end TradingRules
