/-
# Natural numbers in decimal digits

Periods and limits are unsigned numbers below `2 ^ 64`, written in ASCII digits.
-/

namespace TradingRules.Text

/-- The first natural number that a setting or a period cannot hold. -/
def wordBound : Nat := UInt64.size

/-- The number that a row of digits stands for. -/
def digitsValue (digits : List Char) : Nat :=
  digits.foldl (fun n c => 10 * n + (c.toNat - '0'.toNat)) 0

/-- Why a text is no unsigned number. -/
inductive NaturalError where
  | empty
  | invalidDigit
  | tooLarge
deriving DecidableEq, Repr

/-- The wording of the complaint. -/
def NaturalError.message : NaturalError → String
  | .empty => "cannot parse integer from empty string"
  | .invalidDigit => "invalid digit found in string"
  | .tooLarge => "number too large to fit in target type"

/-- Reads on after the number `n` has been read; the first character that is no digit, or that
would take the number out of bounds, decides the error. -/
def readDigits (n : Nat) : List Char → Except NaturalError Nat
  | [] => .ok n
  | c :: rest =>
    if c.isDigit then
      let next := 10 * n + (c.toNat - '0'.toNat)
      if next < wordBound then readDigits next rest else .error .tooLarge
    else .error .invalidDigit

/-- Reads an unsigned number below `2 ^ 64`, with an optional plus sign. -/
def readNatural : List Char → Except NaturalError Nat
  | [] => .error .empty
  | ['+'] => .error .invalidDigit
  | '+' :: rest => readDigits 0 rest
  | text => readDigits 0 text

end TradingRules.Text
