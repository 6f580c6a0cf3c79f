/-
# The content of a tree

The compact text of a tree must not contain any of a few words. The test is coarse: words may be
part of harmless ones.
-/
import TradingRules.Json.Print
import TradingRules.Sandbox.Error
import TradingRules.Text.Search

namespace TradingRules.Sandbox

/-- The words that are not wanted, in the order in which they are looked for. -/
def dangerousPatterns : List String :=
  ["require", "import", "eval", "Function", "fs", "process", "child_process"]

/-- The first unwanted word that a text contains. -/
def patternIn? (text : List Char) : Option String :=
  dangerousPatterns.find? fun pattern => Text.occursIn pattern.toList text

/-- Refuses a tree whose text contains an unwanted word. -/
def scanContent (root : Json) : Except Error Unit :=
  match patternIn? root.compact.toList with
  | some pattern => .error (.dangerousPattern pattern)
  | none => .ok ()

end TradingRules.Sandbox
