/-
# Failures

Whatever goes wrong outside the reading of the command line ends as a failure, which has a wording
and an exit code.
-/
import TradingRules.Market.Error
import TradingRules.Sandbox.Error
import TradingRules.Settings.Limits
import TradingRules.SyntaxError

namespace TradingRules

/-- Why the settings of a file cannot be had. -/
inductive Settings.FileFault where
  | unreadable (e : FileError)
  | malformed (e : Settings.Error)
deriving DecidableEq, Repr

/-- The wording of the complaint about a settings file. -/
def Settings.FileFault.message : Settings.FileFault → String
  | .unreadable e => e.message
  | .malformed e => e.message

/-- Why there is no result. -/
inductive Failure where
  | malformedStrategy (e : SyntaxError)
  | sandbox (e : Sandbox.Error)
  | settingsFile (path : String) (e : Settings.FileFault)
  | invalidLimit (e : Settings.InvalidLimit)
  | market (e : Market.Error)
  | file (e : FileError)
deriving DecidableEq, Repr

namespace Failure

/-- The wording of a failure. -/
def message : Failure → String
  | .malformedStrategy e => e.report
  | .sandbox e => e.message
  | .settingsFile path e =>
    "config parse error in " ++ path ++ ": couldn't read " ++ path ++ ": " ++ e.message
  | .invalidLimit e =>
    "invalid config value [" ++ Settings.limitsSection ++ "] " ++ e.key ++ ": " ++ e.reason
  | .market e => "market data error: " ++ e.reason
  | .file e => e.message

/-- The exit code of a failure. -/
def exitCode : Failure → Nat
  | .file _ => 1
  | .settingsFile .. | .invalidLimit _ => 2
  | .market _ => 3
  | .malformedStrategy _ => 4
  | .sandbox _ => 5

end Failure

end TradingRules
