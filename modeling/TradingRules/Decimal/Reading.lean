/-
# Reading a number

Literals, parameters and table fields hold numbers as an optional sign with digits, an optional
decimal point among or around them and an optional exponent, or one of the words for infinity and
for no number at all. The value is correctly rounded.
-/
import TradingRules.Text.Natural

namespace TradingRules.Decimal

open TradingRules.Text

/-- Why a text is no number. -/
inductive NumberError where
  | empty
  | invalid
deriving DecidableEq, Repr

/-- The wording of the complaint. -/
def NumberError.message : NumberError → String
  | .empty => "cannot parse float from empty string"
  | .invalid => "invalid float literal"

/-- The number of double precision nearest to `digits * 10 ^ exponent`. Magnitudes far outside the
range are settled without computing the power. -/
def nearest (digits : Nat) (exponent : Int) : Float :=
  if digits = 0 then 0.0
  else if exponent > 400 then 1.0 / 0.0
  else if exponent + digits.log2 + 1 < -400 then 0.0
  else Float.ofScientific digits (exponent < 0) exponent.natAbs

/-- The parts of an unsigned number as it is written. -/
structure Parts where
  whole : List Char
  fraction : List Char
  exponent : Int

/-- The value of the parts. -/
def Parts.value (p : Parts) : Float :=
  nearest (digitsValue (p.whole ++ p.fraction)) (p.exponent - p.fraction.length)

/-- Reads what may follow the digits: nothing, or a letter `e` with an optional sign and at least
one digit. -/
def readExponent : List Char → Option Int
  | [] => some 0
  | mark :: rest =>
    if mark = 'e' ∨ mark = 'E' then
      let (negative, digits) :=
        match rest with
        | '-' :: digits => (true, digits)
        | '+' :: digits => (false, digits)
        | digits => (false, digits)
      if digits.isEmpty || !digits.all Char.isDigit then none
      else if negative then some (-(digitsValue digits : Int))
      else some (digitsValue digits)
    else none

/-- Reads digits with at most one point, at least one digit, and an optional exponent. -/
def readParts (text : List Char) : Option Parts :=
  let whole := text.takeWhile Char.isDigit
  let (fraction, tail) :=
    match text.dropWhile Char.isDigit with
    | '.' :: rest => (rest.takeWhile Char.isDigit, rest.dropWhile Char.isDigit)
    | tail => ([], tail)
  if whole.isEmpty && fraction.isEmpty then none
  else (readExponent tail).map fun exponent => ⟨whole, fraction, exponent⟩

/-- Reads the words for infinity and for no number, in either case of their letters. -/
def readWord (text : List Char) : Option Float :=
  let lowered := text.map Char.toLower
  if lowered = "inf".toList ∨ lowered = "infinity".toList then some (1.0 / 0.0)
  else if lowered = "nan".toList then some (0.0 / 0.0)
  else none

/-- Reads a number without its sign. -/
def readUnsigned (text : List Char) : Option Float :=
  match readParts text with
  | some parts => some parts.value
  | none => readWord text

/-- Reads a number. -/
def read (text : List Char) : Except NumberError Float :=
  match text with
  | [] => .error .empty
  | '-' :: rest => ((readUnsigned rest).map Float.neg).elim (.error .invalid) .ok
  | '+' :: rest => (readUnsigned rest).elim (.error .invalid) .ok
  | _ => (readUnsigned text).elim (.error .invalid) .ok

end TradingRules.Decimal
