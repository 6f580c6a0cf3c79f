/-
# How a number is written

A number is written positionally, with at least one digit after the point, when its leading digit
stands for `10 ^ -5` up to `10 ^ 15`; otherwise with one digit before the point and a signed
exponent.
-/
import TradingRules.Decimal.Shortest

namespace TradingRules.Decimal

/-- The least exponent of a leading digit that is written positionally. -/
def positionalFrom : Int := -5

/-- The least exponent of a leading digit from which on the exponent is written out. -/
def positionalBelow : Int := 16

/-- The decimal digits of a natural number, without leading zeros. -/
def digitsOf (n : Nat) : List Char :=
  Nat.toDigits 10 n

/-- Digits with a decimal point, the leading digit standing for `10 ^ leading`. -/
def positional (digits : List Char) (leading : Int) : List Char :=
  if leading < 0 then
    "0.".toList ++ List.replicate (-leading - 1).toNat '0' ++ digits
  else
    let wholeSize := leading.toNat + 1
    let whole := digits.take wholeSize
    let fraction := digits.drop wholeSize
    whole ++ List.replicate (wholeSize - digits.length) '0' ++ '.' ::
      (if fraction.isEmpty then ['0'] else fraction)

/-- Digits in exponent form, the leading digit standing for `10 ^ leading`. -/
def scientific (digits : List Char) (leading : Int) : List Char :=
  let fraction := digits.drop 1
  digits.take 1 ++ (if fraction.isEmpty then [] else '.' :: fraction) ++
    'e' :: (if leading < 0 then '-' else '+') :: digitsOf leading.natAbs

/-- The text of a decimal that is not negative. -/
def text (d : Decimal) : List Char :=
  let digits := digitsOf d.digits
  let leading := d.exponent + digits.length - 1
  if positionalFrom ≤ leading && leading < positionalBelow then positional digits leading
  else scientific digits leading

/-- The text of a finite number: the shortest decimal that identifies it, after a minus sign if the
sign bit is set. -/
def write (x : Float) : List Char :=
  let magnitude := (shortest x).text
  if x.toBits >>> 63 = 0 then magnitude else '-' :: magnitude

end TradingRules.Decimal
