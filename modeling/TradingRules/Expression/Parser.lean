/-
# Reading expressions

A clause is trimmed and then taken as a whole: as a call on the signal's text, a market field, an
indicator call or a number, in this order.
-/
import TradingRules.Expression.Basic
import TradingRules.SyntaxError
import TradingRules.Text.Scan
import TradingRules.Decimal.Reading

namespace TradingRules.Expression

open TradingRules.Text

/-- The indicator whose digits are given; it must have a positive period of at most 64 bits. -/
def ofDigits (kind : Indicator.Kind) (digits clause : List Char) : Except SyntaxError Expression :=
  let period := digitsValue digits
  if wordBound ≤ period then .error (.invalidPeriod (String.ofList clause))
  else if period = 0 then .error (.periodNotPositive (String.ofList clause))
  else .ok (.indicator ⟨kind, UInt64.ofNat period⟩)

/-- Whether a clause consists of digits and points alone. -/
def isPlain (clause : List Char) : Bool :=
  !clause.isEmpty && clause.all fun c => c.isDigit || c == '.'

/-- Reads a clause as a number: digits with at most one point. -/
def ofNumber (clause : List Char) : Except SyntaxError Expression :=
  match Decimal.read clause with
  | .ok value =>
    if value.isFinite then .ok (.literal value)
    else .error (.literalOutOfRange (String.ofList clause))
  | .error _ => .error (.unknownExpression (String.ofList clause))

/-- Reads a clause that is already trimmed. -/
def ofClause (clause : List Char) : Except SyntaxError Expression :=
  match whole (quotedCall "tweet.contains".toList) clause with
  | some text => .ok (.tweetContains (String.ofList text))
  | none =>
    if clause = "token.volume".toList then .ok .volume
    else if clause = "price".toList then .ok .price
    else
      match whole (integerCall "rsi".toList) clause with
      | some digits => ofDigits .rsi digits clause
      | none =>
        match whole (integerCall "sma".toList) clause with
        | some digits => ofDigits .sma digits clause
        | none =>
          match whole (integerCall "ema".toList) clause with
          | some digits => ofDigits .ema digits clause
          | none =>
            if isPlain clause then ofNumber clause
            else .error (.unknownExpression (String.ofList clause))

/-- Reads an expression. -/
def parse (text : List Char) : Except SyntaxError Expression :=
  ofClause (trim text)

end TradingRules.Expression
