/-
# Calendar dates

Dates are written `year-month-day` in ASCII digits. A year may carry a sign, and only then have more
than four digits; blanks in front of a number are skipped. What is read is checked number by number,
then the text has to end, then the day must exist in the calendar.
-/
import TradingRules.Text.Natural
import TradingRules.Text.Scan

namespace TradingRules

/-! ## The calendar -/

/-- Whether a year has a leap day, by the Gregorian rule for all years. -/
def isLeapYear (year : Int) : Bool :=
  year % 4 = 0 && (year % 100 ≠ 0 || year % 400 = 0)

/-- The number of days of a month. -/
def daysInMonth (year : Int) (month : Nat) : Nat :=
  if month = 2 then (if isLeapYear year then 29 else 28)
  else if month = 4 ∨ month = 6 ∨ month = 9 ∨ month = 11 then 30
  else 31

/-- Whether a date exists in the calendar, which spans a limited number of years. -/
def isCalendarDate (year : Int) (month day : Nat) : Bool :=
  decide (-262143 ≤ year) && decide (year ≤ 262142) &&
    decide (1 ≤ month) && decide (month ≤ 12) &&
    decide (1 ≤ day) && decide (day ≤ daysInMonth year month)

/-- A date of the calendar. -/
structure Date where
  year : Int
  month : Nat
  day : Nat
  valid : isCalendarDate year month day = true
deriving DecidableEq, Repr

namespace Date

/-- The date of a year, a month and a day, if there is one. -/
def of? (year : Int) (month day : Nat) : Option Date :=
  if h : isCalendarDate year month day = true then some ⟨year, month, day, h⟩ else none

/-- A number that grows with the date: months are 31 and years 372 apart. -/
def rank (d : Date) : Int :=
  372 * d.year + 31 * d.month + d.day

/-- Whether a date is not after another. -/
def notAfter (d e : Date) : Bool :=
  decide (d.rank ≤ e.rank)

theorem daysInMonth_le (year : Int) (month : Nat) : daysInMonth year month ≤ 31 := by
  unfold daysInMonth
  split
  · split <;> omega
  · split <;> omega

theorem bounds (d : Date) : 1 ≤ d.month ∧ d.month ≤ 12 ∧ 1 ≤ d.day ∧ d.day ≤ 31 := by
  have h := d.valid
  simp only [isCalendarDate, Bool.and_eq_true, decide_eq_true_eq] at h
  have := daysInMonth_le d.year d.month
  omega

/-- The order of dates looks at the year first, then at the month, then at the day. -/
theorem rank_lt_rank {d e : Date} : d.rank < e.rank ↔
    d.year < e.year ∨ d.year = e.year ∧
      (d.month < e.month ∨ d.month = e.month ∧ d.day < e.day) := by
  have := d.bounds
  have := e.bounds
  unfold rank
  omega

theorem eq_of_rank_eq {d e : Date} (h : d.rank = e.rank) : d = e := by
  have := d.bounds
  have := e.bounds
  unfold rank at h
  have hy : d.year = e.year := by omega
  have hm : d.month = e.month := by omega
  have hd : d.day = e.day := by omega
  cases d
  cases e
  simp_all

/-! ## Reading -/

/-- Why a text is no date. -/
inductive ReadError where
  /-- A character stands where another is needed. -/
  | invalid
  /-- A number does not fit, or there is no such day. -/
  | outOfRange
  /-- The text ends too early. -/
  | tooShort
  /-- The text goes on behind the day. -/
  | trailing
deriving DecidableEq, Repr

/-- The wording of the complaint. -/
def ReadError.message : ReadError → String
  | .invalid => "input contains invalid characters"
  | .outOfRange => "input is out of range"
  | .tooShort => "premature end of input"
  | .trailing => "trailing input"

open Text

/-- Reads digits, at most `width` of them where a width is given. -/
def readNumber (width : Option Nat) (text : List Char) : Except ReadError (Nat × List Char) :=
  let digits := text.takeWhile Char.isDigit
  let digits := match width with
    | some width => digits.take width
    | none => digits
  match text with
  | [] => .error .tooShort
  | _ :: _ =>
    if digits.isEmpty then .error .invalid
    else .ok (digitsValue digits, text.drop digits.length)

/-- Reads a year. -/
def readYear (text : List Char) : Except ReadError (Int × List Char) :=
  match trimStart text with
  | '-' :: rest => do
    let (n, rest) ← readNumber none rest
    return (-n, rest)
  | '+' :: rest => do
    let (n, rest) ← readNumber none rest
    return (n, rest)
  | rest => do
    let (n, rest) ← readNumber (some 4) rest
    return (n, rest)

/-- Reads a hyphen. -/
def readHyphen (text : List Char) : Except ReadError (List Char) :=
  match text with
  | [] => .error .tooShort
  | c :: rest => if c = '-' then .ok rest else .error .invalid

/-- Reads a month or a day, which runs from one to a greatest number. -/
def readPart (greatest : Nat) (text : List Char) : Except ReadError (Nat × List Char) := do
  let (n, rest) ← readNumber (some 2) (trimStart text)
  if 1 ≤ n ∧ n ≤ greatest then return (n, rest) else .error .outOfRange

/-- Whether a year fits into 32 bits, with its sign. -/
def isSmallYear (year : Int) : Bool :=
  decide (-2147483648 ≤ year) && decide (year < 2147483648)

/-- Reads a date. -/
def read (text : List Char) : Except ReadError Date := do
  let (year, rest) ← readYear text
  if isSmallYear year then
    let rest ← readHyphen rest
    let (month, rest) ← readPart 12 rest
    let rest ← readHyphen rest
    let (day, rest) ← readPart 31 rest
    if rest.isEmpty then
      match of? year month day with
      | some d => .ok d
      | none => .error .outOfRange
    else .error .trailing
  else .error .outOfRange

end Date

end TradingRules
