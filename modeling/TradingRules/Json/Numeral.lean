/-
# JSON numbers as they are written

A numeral keeps its digits, since not every reader turns it into a number. Its value is an integer
if it is written as one and fits into 64 bits. Otherwise its digits form a significand of at most 64
bits, which is scaled once by a power of ten; so the value need not be the nearest one.
-/
import TradingRules.Json.Basic
import TradingRules.Text.Natural

namespace TradingRules.Json

open TradingRules.Text

/-- How reading a text as JSON fails. -/
inductive ReadError where
  /-- The text is no JSON. -/
  | malformed
  /-- The text ends too early. -/
  | unexpectedEnd
  /-- The text is JSON of another shape than the one wanted. -/
  | mismatch
deriving DecidableEq, Repr

/-- A place where a text stops being JSON, with the error of a reader who wants the value that
begins there and of one who only passes over it. -/
structure Break where
  read : ReadError
  skip : ReadError
deriving DecidableEq, Repr

/-- A break that every reader reports alike. -/
def Break.same (error : ReadError) : Break := ⟨error, error⟩

/-- A digit is missing where the text ends (then only a reader who wants the number calls the text
too short) or goes on otherwise. -/
def Break.missingDigit (rest : List Char) : Break :=
  if rest.isEmpty then ⟨.unexpectedEnd, .malformed⟩ else .same .malformed

/-- A number as it is written. A fraction or an exponent that is present has digits. -/
structure Numeral where
  negative : Bool
  whole : List Char
  fraction : List Char
  /-- The sign of the exponent, `true` for minus, and its digits. -/
  exponent : Option (Bool × List Char)
deriving DecidableEq, Repr

/-! ## Reading -/

/-- Takes a minus sign off, if there is one. -/
def takeMinus : List Char → Bool × List Char
  | '-' :: rest => (true, rest)
  | text => (false, text)

/-- Takes a plus or minus sign off, if there is one; `true` stands for minus. -/
def takeSign : List Char → Bool × List Char
  | '-' :: rest => (true, rest)
  | '+' :: rest => (false, rest)
  | text => (false, text)

/-- Reads the exponent of a numeral, if there is one. -/
def scanExponent : List Char → Except Break (Option (Bool × List Char) × List Char)
  | [] => .ok (none, [])
  | mark :: rest =>
    if mark = 'e' ∨ mark = 'E' then
      let signed := takeSign rest
      let digits := signed.2.takeWhile Char.isDigit
      let after := signed.2.dropWhile Char.isDigit
      if digits.isEmpty then .error (.missingDigit after)
      else .ok (some (signed.1, digits), after)
    else .ok (none, mark :: rest)

/-- Reads the fraction of a numeral, if there is one. -/
def scanFraction : List Char → Except Break (List Char × List Char)
  | [] => .ok ([], [])
  | mark :: rest =>
    if mark = '.' then
      let digits := rest.takeWhile Char.isDigit
      let after := rest.dropWhile Char.isDigit
      if digits.isEmpty then .error (.missingDigit after) else .ok (digits, after)
    else .ok ([], mark :: rest)

/-- Reads the digits in front of the fraction: zero alone, or digits that do not begin with zero. -/
def scanWhole (text : List Char) : Except Break (List Char × List Char) :=
  let digits := text.takeWhile Char.isDigit
  let after := text.dropWhile Char.isDigit
  if digits.isEmpty then .error (.missingDigit after)
  else if digits.head? = some '0' ∧ digits.length > 1 then .error (.same .malformed)
  else .ok (digits, after)

/-- Reads a numeral. -/
def scanNumeral (text : List Char) : Except Break (Numeral × List Char) := do
  let (whole, text') ← scanWhole (takeMinus text).2
  let (fraction, text') ← scanFraction text'
  let (exponent, text') ← scanExponent text'
  return (⟨(takeMinus text).1, whole, fraction, exponent⟩, text')

/-! ### A numeral takes a share of the text -/

theorem length_dropWhile_lt {α : Type} {p : α → Bool} {l : List α}
    (h : (l.takeWhile p).isEmpty = false) : (l.dropWhile p).length < l.length := by
  cases l with
  | nil => simp at h
  | cons a l =>
    simp only [List.takeWhile] at h
    simp only [List.dropWhile]
    split at h
    · have := (List.dropWhile_sublist p (l := l)).length_le
      simp only [List.length_cons]; omega
    · simp at h

theorem length_takeMinus_le (text : List Char) : (takeMinus text).2.length ≤ text.length := by
  unfold takeMinus; split <;> simp

theorem length_takeSign_le (text : List Char) : (takeSign text).2.length ≤ text.length := by
  unfold takeSign; split <;> simp

theorem length_scanExponent_le {text rest : List Char} {exponent : Option (Bool × List Char)}
    (h : scanExponent text = .ok (exponent, rest)) : rest.length ≤ text.length := by
  cases text with
  | nil => simp only [scanExponent, Except.ok.injEq, Prod.mk.injEq] at h; simp [← h.2]
  | cons mark tail =>
    have h1 := length_takeSign_le tail
    have h2 := (List.dropWhile_sublist Char.isDigit (l := (takeSign tail).2)).length_le
    simp only [scanExponent] at h
    split at h
    · split at h
      · simp at h
      · simp only [Except.ok.injEq, Prod.mk.injEq] at h
        rw [← h.2, List.length_cons]; omega
    · simp only [Except.ok.injEq, Prod.mk.injEq] at h; simp [← h.2]

theorem length_scanFraction_le {text fraction rest : List Char}
    (h : scanFraction text = .ok (fraction, rest)) : rest.length ≤ text.length := by
  cases text with
  | nil => simp only [scanFraction, Except.ok.injEq, Prod.mk.injEq] at h; simp [← h.2]
  | cons mark tail =>
    have h1 := (List.dropWhile_sublist Char.isDigit (l := tail)).length_le
    simp only [scanFraction] at h
    split at h
    · split at h
      · simp at h
      · simp only [Except.ok.injEq, Prod.mk.injEq] at h
        rw [← h.2, List.length_cons]; omega
    · simp only [Except.ok.injEq, Prod.mk.injEq] at h; simp [← h.2]

theorem length_scanWhole_lt {text whole rest : List Char}
    (h : scanWhole text = .ok (whole, rest)) : rest.length < text.length := by
  simp only [scanWhole] at h
  split at h
  · simp at h
  · rename_i hd
    split at h
    · simp at h
    · simp only [Except.ok.injEq, Prod.mk.injEq] at h
      rw [← h.2]
      exact length_dropWhile_lt (Bool.eq_false_iff.mpr hd)

theorem length_scanNumeral_lt {text rest : List Char} {n : Numeral}
    (h : scanNumeral text = .ok (n, rest)) : rest.length < text.length := by
  simp only [scanNumeral, bind, Except.bind, pure, Except.pure] at h
  split at h
  · simp at h
  rename_i hw
  split at h
  · simp at h
  rename_i hf
  split at h
  · simp at h
  rename_i he
  simp only [Except.ok.injEq, Prod.mk.injEq] at h
  have h0 := length_takeMinus_le text
  have h1 := length_scanWhole_lt hw
  have h2 := length_scanFraction_le hf
  have h3 := length_scanExponent_le he
  rw [← h.2]; omega

/-! ## Value -/

/-- Extends a significand by digits as long as it stays below `2 ^ 64`; gives it with the digits
that are left. -/
def significand (n : Nat) : List Char → Nat × List Char
  | [] => (n, [])
  | c :: rest =>
    let next := 10 * n + (c.toNat - '0'.toNat)
    if next < wordBound then significand next rest else (n, c :: rest)

/-- The greatest power of ten that is scaled by in one step. -/
def scaleStep : Nat := 308

/-- The power of ten, as the nearest number of double precision. -/
def powerOfTen (exponent : Nat) : Float :=
  Float.ofScientific 1 false exponent

/-- Divides by a power of ten, in steps as long as it is out of range and the number is not zero. -/
def scaleDown (x : Float) (exponent : Nat) : Float :=
  if exponent ≤ scaleStep then x / powerOfTen exponent
  else if x == 0.0 then x
  else scaleDown (x / powerOfTen scaleStep) (exponent - scaleStep)
termination_by exponent
decreasing_by simp only [scaleStep] at *; omega

/-- Multiplies by a power of ten; fails if the product is out of range. -/
def scaleUp (x : Float) (exponent : Nat) : Option Float :=
  if exponent ≤ scaleStep then
    let product := x * powerOfTen exponent
    if product.isInf then none else some product
  else if x == 0.0 then some x
  else none

/-- The number `n * 10 ^ exponent`, scaled once; fails if it is out of range. -/
def scale (n : Nat) (exponent : Int) : Option Float :=
  if exponent < 0 then some (scaleDown (Float.ofNat n) exponent.natAbs)
  else scaleUp (Float.ofNat n) exponent.natAbs

/-- The greatest written exponent that is taken as it is. -/
def exponentBound : Nat := 2147483647

/-- The magnitude of `n * 10 ^ shift` with a further written exponent. -/
def magnitude (n : Nat) (shift : Int) : Option (Bool × List Char) → Option Float
  | none => scale n shift
  | some (negative, digits) =>
    let exponent := digitsValue digits
    if exponent > exponentBound then
      if n = 0 ∨ negative then some 0.0 else none
    else scale n (if negative then shift - exponent else shift + exponent)

/-- The value of a numeral; fails if it is out of range. -/
def Numeral.value? (n : Numeral) : Option Number :=
  let (head, left) := significand 0 n.whole
  if left.isEmpty && n.fraction.isEmpty && n.exponent.isNone then
    if !n.negative then some (.integer head)
    else if head = 0 ∨ head > 9223372036854775808 then some (.float (-(Float.ofNat head)))
    else some (.integer (-head))
  else
    let (digits, dropped) := significand head n.fraction
    let shift : Int := (left.length : Int) - (n.fraction.length - dropped.length : Nat)
    (magnitude digits shift n.exponent).map fun x => .float (if n.negative then -x else x)

end TradingRules.Json
