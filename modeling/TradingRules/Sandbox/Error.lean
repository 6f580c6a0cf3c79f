/-
# Why the sandbox refuses or gives up
-/

namespace TradingRules.Sandbox

/-- Why there is no result. -/
inductive Error where
  /-- A tree is deeper than it may be. -/
  | maxDepthExceeded (limit : Nat)
  /-- The tag of a node is none of the known ones. -/
  | disallowedOperation (tag : String)
  /-- A text holds a word that is not wanted. -/
  | dangerousPattern (pattern : String)
  /-- The time was over before the work was done. -/
  | executionTimeout (timeoutMs : Nat)
  /-- The work ended without a result, or with a fault of its own. -/
  | executionFailed (reason : String)
  /-- The work found the tree unusable. -/
  | invalidTree (reason : String)
deriving DecidableEq, Repr

/-- The wording of an error. -/
def Error.message : Error → String
  | .maxDepthExceeded limit => "maximum AST depth of " ++ toString limit ++ " exceeded"
  | .disallowedOperation tag => "disallowed operation: " ++ tag
  | .dangerousPattern pattern => "potentially dangerous pattern detected: " ++ pattern
  | .executionTimeout timeoutMs => "execution exceeded " ++ toString timeoutMs ++ " ms"
  | .executionFailed reason => "execution failed: " ++ reason
  | .invalidTree reason => "invalid AST: " ++ reason

end TradingRules.Sandbox
