/-
# The shortest decimal that identifies a number

Every finite number of double precision stands for an interval of reals: all those that round to it.
Among the decimals in that interval the one with the fewest digits is chosen, of several such the
closest to the number, and of two equally close ones the even one. All arithmetic is exact, on
natural numbers.
-/

namespace TradingRules

/-- The number `digits * 10 ^ exponent`. -/
structure Decimal where
  digits : Nat
  exponent : Int
deriving DecidableEq, Repr

namespace Decimal

/-- A power of two. -/
def powerOfTwo (n : Nat) : Nat := Nat.pow 2 n

/-- A power of ten. -/
def powerOfTen (n : Nat) : Nat := Nat.pow 10 n

/-- A positive number of double precision with the ends of its interval, all three as numerators
over one common denominator. -/
structure Interval where
  low : Nat
  value : Nat
  high : Nat
  denominator : Nat
  /-- Both ends belong to the interval; this is so when the significand is even. -/
  closed : Bool

/-- The interval of the number `significand * 2 ^ exponent`. The gap below is half as wide as the
gap above when `narrowBelow` holds. -/
def Interval.of (significand : Nat) (exponent : Int) (narrowBelow : Bool) : Interval where
  low := (4 * significand - if narrowBelow then 1 else 2) * powerOfTwo exponent.toNat
  value := 4 * significand * powerOfTwo exponent.toNat
  high := (4 * significand + 2) * powerOfTwo exponent.toNat
  denominator := 4 * powerOfTwo (-exponent).toNat
  closed := significand % 2 == 0

/-- The interval of the finite positive number with the given bits. -/
def Interval.ofBits (bits : UInt64) : Interval :=
  let biased := ((bits >>> 52) &&& 0x7FF).toNat
  let fraction := (bits &&& 0xFFFFFFFFFFFFF).toNat
  if biased = 0 then Interval.of fraction (-1074) false
  else Interval.of (powerOfTwo 52 + fraction) (biased - 1075) (fraction == 0 && biased > 1)

/-- Whether a decimal lies in the interval. -/
def Interval.holds (i : Interval) (d : Decimal) : Bool :=
  let scaled := d.digits * powerOfTen d.exponent.toNat * i.denominator
  let unit := powerOfTen (-d.exponent).toNat
  if i.closed then i.low * unit ≤ scaled && scaled ≤ i.high * unit
  else i.low * unit < scaled && scaled < i.high * unit

/-- The value in units of `10 ^ exponent`, as a quotient of natural numbers. -/
def Interval.quotient (i : Interval) (exponent : Int) : Nat × Nat :=
  (i.value * powerOfTen (-exponent).toNat, i.denominator * powerOfTen exponent.toNat)

/-- The multiple of `10 ^ exponent` in the interval that is closest to the value, if there is one:
only the two neighbours of the value on that grid can be. -/
def Interval.onGrid (i : Interval) (exponent : Int) : Option Decimal :=
  let (numerator, denominator) := i.quotient exponent
  let below := numerator / denominator
  let lower : Decimal := ⟨below, exponent⟩
  let upper : Decimal := ⟨below + 1, exponent⟩
  match i.holds lower, i.holds upper with
  | false, false => none
  | true, false => some lower
  | false, true => some upper
  | true, true =>
    match compare (2 * (numerator % denominator)) denominator with
    | .lt => some lower
    | .gt => some upper
    | .eq => if below % 2 = 0 then some lower else some upper

/-- The least exponent `k` from `start` on with value less than `10 ^ k`, looked for within a
bounded number of steps. -/
def Interval.scaleFrom (i : Interval) (start : Int) : Nat → Int
  | 0 => start
  | steps + 1 =>
    if i.value * powerOfTen (-start).toNat < i.denominator * powerOfTen start.toNat then start
    else i.scaleFrom (start + 1) steps

/-- The least exponent `k` with value less than `10 ^ k`: the binary logarithm gives a lower
estimate that is at most two too small. -/
def Interval.scale (i : Interval) : Int :=
  let log2 : Int := (Nat.log2 i.value : Int) - Nat.log2 i.denominator
  i.scaleFrom (((log2 - 1) * 30103).fdiv 100000) 4

/-- Moves trailing zeros of the digits into the exponent. -/
def stripZeros (d : Decimal) : Nat → Decimal
  | 0 => d
  | steps + 1 =>
    if d.digits % 10 = 0 ∧ d.digits ≠ 0 then stripZeros ⟨d.digits / 10, d.exponent + 1⟩ steps
    else d

/-- The decimal with the fewest digits in the interval. Seventeen digits always identify a number of
double precision; the last alternative only makes the function total. -/
def Interval.shortest (i : Interval) : Decimal :=
  let scale := i.scale
  match (List.range 17).findSome? fun n : Nat => i.onGrid (scale - (n + 1 : Nat)) with
  | some d => d.stripZeros 17
  | none => ⟨i.value * powerOfTen 1100 / i.denominator, -1100⟩

/-- The shortest decimal that identifies the magnitude of a finite number. -/
def shortest (x : Float) : Decimal :=
  let bits := x.toBits &&& 0x7FFFFFFFFFFFFFFF
  if bits = 0 then ⟨0, 0⟩ else (Interval.ofBits bits).shortest

end Decimal

end TradingRules
