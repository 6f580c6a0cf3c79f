/-
# Why there is no market
-/
import TradingRules.Csv.Record
import TradingRules.Decimal.Reading
import TradingRules.Files.Basic
import TradingRules.Market.Date

namespace TradingRules

/-- Why a market cannot be given. -/
inductive Market.Error where
  | unreadableFile (path : String) (e : FileError)
  | unreadableDirectory (path : String) (e : FileError)
  | unequalWidth (e : Csv.WidthError)
  | missingColumn (column : String)
  | invalidDate (e : Date.ReadError)
  | invalidNumber (column : String) (e : Decimal.NumberError)
  | unknownSymbol (symbol : String) (available : List String)
  /-- The feed does not work. -/
  | feedFailure (reason : String)
deriving DecidableEq, Repr

/-- The wording of an error. -/
def Market.Error.reason : Market.Error → String
  | .unreadableFile path e => "failed to read " ++ path ++ ": " ++ e.message
  | .unreadableDirectory path e => "failed to read directory " ++ path ++ ": " ++ e.message
  | .unequalWidth e => "CSV parse error: " ++ e.message
  | .missingColumn column => "missing " ++ column ++ " column"
  | .invalidDate e => "invalid date format: " ++ e.message
  | .invalidNumber column e => "invalid " ++ column ++ " value: " ++ e.message
  | .unknownSymbol symbol available =>
    let names := if available.isEmpty then "none" else ", ".intercalate available
    "unknown symbol " ++ symbol ++ " (available: " ++ names ++ ")"
  | .feedFailure reason => reason

end TradingRules
