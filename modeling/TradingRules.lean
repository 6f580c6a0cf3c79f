import TradingRules.Action.Basic
import TradingRules.Action.Json
import TradingRules.Action.Parser
import TradingRules.CommandLine.Argument
import TradingRules.CommandLine.Command
import TradingRules.CommandLine.Run
import TradingRules.Condition.Basic
import TradingRules.Condition.Json
import TradingRules.Condition.Parser
import TradingRules.Csv.Record
import TradingRules.Cursor.Basic
import TradingRules.Cursor.Parser
import TradingRules.Decimal.Notation
import TradingRules.Decimal.Reading
import TradingRules.Decimal.Shortest
import TradingRules.Dictionary
import TradingRules.Evaluation.Basic
import TradingRules.Evaluation.Operand
import TradingRules.Evaluation.Watched
import TradingRules.Expression.Basic
import TradingRules.Expression.Json
import TradingRules.Expression.Parser
import TradingRules.Failure
import TradingRules.Files.Basic
import TradingRules.Files.Tree
import TradingRules.Indicator
import TradingRules.Json.Basic
import TradingRules.Json.Numeral
import TradingRules.Json.Print
import TradingRules.Json.Read
import TradingRules.Json.Tagged
import TradingRules.Json.Token
import TradingRules.Json.Tree
import TradingRules.Market.Basic
import TradingRules.Market.Date
import TradingRules.Market.Error
import TradingRules.Market.Feed
import TradingRules.Market.Json
import TradingRules.Market.PriceFile
import TradingRules.Sandbox.Content
import TradingRules.Sandbox.Deadline
import TradingRules.Sandbox.Error
import TradingRules.Sandbox.Evaluation
import TradingRules.Sandbox.Execution
import TradingRules.Sandbox.Limits
import TradingRules.Sandbox.Structure
import TradingRules.Sandbox.Validation
import TradingRules.Sandbox.Worker
import TradingRules.Settings.Basic
import TradingRules.Settings.Limits
import TradingRules.Settings.Line
import TradingRules.Strategy.Basic
import TradingRules.Strategy.Json
import TradingRules.Strategy.Parser
import TradingRules.SyntaxError
import TradingRules.Text.Alphanumeric
import TradingRules.Text.Blank
import TradingRules.Text.CaseTables
import TradingRules.Text.Lowercase
import TradingRules.Text.Natural
import TradingRules.Text.Ranges
import TradingRules.Text.Scan
import TradingRules.Text.Search
import TradingRules.Main
import TradingRules.Proofs.Evaluation.Watched
import TradingRules.Proofs.Sandbox.Evaluation
import TradingRules.Proofs.Text.Scan
import TradingRules.Proofs.Decimal.Numeral
import TradingRules.Proofs.Expression.Form
import TradingRules.Proofs.Expression.Ends
import TradingRules.Proofs.Text.Search
import TradingRules.Proofs.Condition.Clause
import TradingRules.Proofs.Condition.Precedence
import TradingRules.Proofs.Action.Call
import TradingRules.Proofs.Strategy.Layout
import TradingRules.Proofs.Strategy.Reading
import TradingRules.Proofs.Evaluation.Visits
import TradingRules.Proofs.Json.Sorted
import TradingRules.Proofs.Sandbox.StrategyTree
import TradingRules.Proofs.Decimal.Digits
import TradingRules.Proofs.Json.Numeral
import TradingRules.Proofs.Json.Token
import TradingRules.Proofs.Json.Tree
import TradingRules.Proofs.Json.Reading
import TradingRules.Proofs.Condition.Reread
import TradingRules.Proofs.Action.Reread
import TradingRules.Proofs.Strategy.RoundTrip
import TradingRules.Proofs.Strategy.Agreement
import TradingRules.Proofs.Json.Mention
import TradingRules.Proofs.Sandbox.ContentScan
import TradingRules.Proofs.Json.Shape
import TradingRules.Proofs.Strategy.Shape
import TradingRules.Proofs.Strategy.Mention
import TradingRules.Proofs.Sandbox.Canonical
import TradingRules.Proofs.Decimal.Sign
import TradingRules.Proofs.Expression.Reading
import TradingRules.Proofs.Condition.WellFormed
import TradingRules.Proofs.Action.Orders
import TradingRules.Proofs.Action.WellFormed
import TradingRules.Proofs.Strategy.WellFormed
import TradingRules.Proofs.Sandbox.CallOutcome
import TradingRules.Proofs.Sandbox.Caller
import TradingRules.Proofs.Sandbox.InFlight
import TradingRules.Proofs.Strategy.Renaming
import TradingRules.Proofs.Json.Room
import TradingRules.Proofs.Strategy.Canonical
import TradingRules.Proofs.Decimal.Value
import TradingRules.Proofs.Json.Distinct
import TradingRules.Proofs.Strategy.Identity
import TradingRules.Proofs.CommandLine.ExitCode
import TradingRules.Proofs.Dictionary
import TradingRules.Proofs.Text.Natural
import TradingRules.Proofs.Settings.Line
import TradingRules.Proofs.Settings.Appearance
import TradingRules.Proofs.Settings.Limits
import TradingRules.Proofs.Decimal.Rounding
import TradingRules.Proofs.Decimal.Nearest
import TradingRules.Proofs.Decimal.Conversion
import TradingRules.Proofs.Expression.Grammar
import TradingRules.Proofs.Condition.Quoted
import TradingRules.Proofs.Action.Arguments
import TradingRules.Proofs.Double.Unpacked
import TradingRules.Proofs.Double.Order
import TradingRules.Proofs.Double.Difference
import TradingRules.Proofs.Double.Rounded
import TradingRules.Proofs.Evaluation.Mirroring
import TradingRules.Proofs.Evaluation.Equality
import TradingRules.Proofs.Decimal.Written
import TradingRules.Proofs.Action.Entry
import TradingRules.Proofs.Action.Parameters
import TradingRules.Proofs.Text.Lowercase
import TradingRules.Proofs.Evaluation.Verbatim
import TradingRules.Proofs.Indicator.History
import TradingRules.Proofs.Evaluation.LookBack
import TradingRules.Proofs.Double.Magnitude
import TradingRules.Proofs.Double.Sum
import TradingRules.Proofs.Indicator.Strength
import TradingRules.Proofs.Market.Chronology
import TradingRules.Proofs.Csv.Record
import TradingRules.Proofs.Market.PriceFile
import TradingRules.Proofs.Market.Feed
import TradingRules.Proofs.Sandbox.Cancellation
import TradingRules.Proofs.Strategy.Diagnosis
import TradingRules.Proofs.Action.Token
import TradingRules.Proofs.Action.Purchase
import TradingRules.Proofs.Cursor.Basic
import TradingRules.Proofs.Cursor.Atomic
import TradingRules.Proofs.Cursor.Parser
import TradingRules.Proofs.Condition.Operands
