/-
# The grammar of expressions

Of the forms of an expression the bounds decide which are accepted: a period is positive and fits into
64 bits, and a literal is finite. What is accepted is read as what it denotes, a literal as the number
nearest to it.
-/
import TradingRules.Proofs.Decimal.Conversion
import TradingRules.Proofs.Expression.Form

namespace TradingRules.Expression

open TradingRules.Text
open TradingRules.Decimal (IsNearest nearest numeralValue)

namespace Form

/-- The bounds on the numbers that are written. -/
def InBounds : Form → Prop
  | .indicator _ digits => 1 ≤ digitsValue digits ∧ digitsValue digits ≤ 2 ^ 64 - 1
  | .literal whole fraction => numeralValue whole fraction < Decimal.overflow
  | .tweetContains _ | .volume | .price => True

/-- The expression that a form denotes. -/
def Denotes : Form → Expression → Prop
  | .tweetContains text, e => e = .tweetContains (String.ofList text)
  | .volume, e => e = .volume
  | .price, e => e = .price
  | .indicator kind digits, e =>
    ∃ period : UInt64, period.toNat = digitsValue digits ∧ e = .indicator ⟨kind, period⟩
  | .literal whole fraction, e => ∃ x, IsNearest (numeralValue whole fraction) x ∧ e = .literal x

/-! ## What the forms denote -/

/-- A form denotes one expression. -/
theorem Denotes.unique {f : Form} {e e' : Expression} (h : f.Denotes e) (h' : f.Denotes e') :
    e = e' := by
  cases f with
  | tweetContains text => exact h.trans h'.symm
  | volume => exact h.trans h'.symm
  | price => exact h.trans h'.symm
  | indicator kind digits =>
    obtain ⟨period, hperiod, rfl⟩ := h
    obtain ⟨period', hperiod', rfl⟩ := h'
    rw [UInt64.toNat_inj.mp (hperiod.trans hperiod'.symm)]
  | literal whole fraction =>
    obtain ⟨x, hx, rfl⟩ := h
    obtain ⟨x', hx', rfl⟩ := h'
    rw [hx.unique hx']

/-- The number that is read off a numeral is correctly rounded. -/
theorem isCorrectlyRounded_literal (whole fraction : List Char) :
    Decimal.IsCorrectlyRounded (numeralValue whole fraction)
      (nearest (digitsValue (whole ++ fraction)) (0 - fraction.length)) := by
  rw [← Decimal.value_eq_numeralValue]
  exact Decimal.isCorrectlyRounded_nearest _ _

/-- A numeral is read as the number nearest to what it stands for, if it is in bounds. -/
theorem outcome_literal_eq_ok_iff {whole fraction clause : List Char} {e : Expression} :
    (literal whole fraction).outcome clause = .ok e ↔
      (literal whole fraction).InBounds ∧ (literal whole fraction).Denotes e := by
  have hrounded := isCorrectlyRounded_literal whole fraction
  show (if _ then _ else _) = _ ↔ numeralValue whole fraction < Decimal.overflow ∧ _
  split_ifs with hfinite
  · constructor
    · intro h
      cases h
      exact ⟨hrounded.isFinite_iff.mp hfinite, _, hrounded.isNearest hfinite, rfl⟩
    · rintro ⟨-, x, hx, rfl⟩
      rw [hx.unique (hrounded.isNearest hfinite)]
  · exact ⟨nofun, fun h => absurd (hrounded.isFinite_iff.mpr h.1) hfinite⟩

/-- A clause in a form is read as what the form denotes, if that is in bounds. -/
theorem outcome_eq_ok_iff {f : Form} {clause : List Char} {e : Expression} :
    f.outcome clause = .ok e ↔ f.InBounds ∧ f.Denotes e := by
  cases f with
  | tweetContains text => simp only [outcome, InBounds, Denotes, Except.ok.injEq, true_and, eq_comm]
  | volume => simp only [outcome, InBounds, Denotes, Except.ok.injEq, true_and, eq_comm]
  | price => simp only [outcome, InBounds, Denotes, Except.ok.injEq, true_and, eq_comm]
  | indicator kind digits => exact ofDigits_eq_ok_iff
  | literal whole fraction => exact outcome_literal_eq_ok_iff

/-- What is in bounds denotes an expression. -/
theorem InBounds.exists_denotes {f : Form} (h : f.InBounds) : ∃ e, f.Denotes e := by
  cases f with
  | tweetContains text => exact ⟨_, rfl⟩
  | volume => exact ⟨_, rfl⟩
  | price => exact ⟨_, rfl⟩
  | indicator kind digits =>
    have hlt : digitsValue digits < 2 ^ 64 := Nat.lt_of_le_of_lt h.2 (by decide)
    exact ⟨_, UInt64.ofNat (digitsValue digits), UInt64.toNat_ofNat_of_lt' hlt, rfl⟩
  | literal whole fraction =>
    have hrounded := isCorrectlyRounded_literal whole fraction
    exact ⟨_, _, hrounded.isNearest (hrounded.isFinite_iff.mpr h), rfl⟩

end Form

/-- A text is accepted exactly if it is written in a form that is in bounds, apart from blanks
around it, and then it is read as what the form denotes. A call of an indicator on a period that is
not positive or does not fit into 64 bits is refused for this reason, whatever blanks stand in it
and however many zeros in front of the period. -/
theorem grammar_exact (text : List Char) :
    ((∃ e, parse text = .ok e) ↔ ∃ f : Form, f.Spells (trim text) ∧ f.InBounds) ∧
      (∀ f : Form, f.Spells (trim text) → f.InBounds →
        ∀ e, parse text = .ok e ↔ f.Denotes e) ∧
      ∀ kind digits, (Form.indicator kind digits).Spells (trim text) →
        (digitsValue digits = 0 →
          parse text = .error (.periodNotPositive (String.ofList (trim text)))) ∧
        (2 ^ 64 ≤ digitsValue digits →
          parse text = .error (.invalidPeriod (String.ofList (trim text)))) := by
  refine ⟨⟨?_, ?_⟩, ?_, ?_⟩
  · rintro ⟨e, h⟩
    obtain ⟨f, hspells, hread⟩ := exists_spells_of_ofClause h
    exact ⟨f, hspells, (Form.outcome_eq_ok_iff.mp hread).1⟩
  · rintro ⟨f, hspells, hbounds⟩
    obtain ⟨e, he⟩ := hbounds.exists_denotes
    refine ⟨e, (ofClause_of_spells hspells).trans ?_⟩
    exact Form.outcome_eq_ok_iff.mpr ⟨hbounds, he⟩
  · intro f hspells hbounds e
    show ofClause (trim text) = .ok e ↔ _
    rw [ofClause_of_spells hspells, Form.outcome_eq_ok_iff]
    exact and_iff_right hbounds
  · intro kind digits hspells
    have hread : parse text = ofDigits kind digits (trim text) := ofClause_of_isIntegerCall hspells
    rw [hread]
    unfold ofDigits
    constructor
    · intro hzero
      simp only [hzero]
      rfl
    · intro hlarge
      exact if_pos hlarge

/-- Blanks and zeros in front of a period do not matter, and neither do they hide that a period is
out of bounds. -/
theorem grammar_spacedCalls :
    parse " rsi ( 0014 ) ".toList = .ok (.indicator ⟨.rsi, 14⟩) ∧
      (∃ e, parse "tweet.contains( 'to the moon\" )".toList = .ok e) ∧
      parse "sma(\t00 )".toList = .error (.periodNotPositive "sma(\t00 )") ∧
      parse "ema(018446744073709551616)".toList =
        .error (.invalidPeriod "ema(018446744073709551616)") := by
  have hrsi : (Form.indicator .rsi "0014".toList).Spells (trim " rsi ( 0014 ) ".toList) :=
    ⟨[' '], [' '], [' '], by decide, by decide, by decide, by decide, by simp, by decide⟩
  have htweet : (Form.tweetContains "to the moon".toList).Spells
      (trim "tweet.contains( 'to the moon\" )".toList) :=
    ⟨[], [' '], [' '], '\'', '"', by decide, by decide, by decide, by decide, by decide, by decide,
      by simp [isQuote], by decide⟩
  have hsma : (Form.indicator .sma "00".toList).Spells (trim "sma(\t00 )".toList) :=
    ⟨[], ['\t'], [' '], by decide, by decide, by decide, by decide, by simp, by decide⟩
  have hema : (Form.indicator .ema "018446744073709551616".toList).Spells
      (trim "ema(018446744073709551616)".toList) :=
    ⟨[], [], [], by decide, by decide, by decide, by decide, by simp, by decide⟩
  refine ⟨?_, ?_, ?_, ?_⟩
  · exact ((grammar_exact _).2.1 _ hrsi ⟨by decide, by decide⟩ _).mpr ⟨14, rfl, rfl⟩
  · exact (grammar_exact _).1.mpr ⟨_, htweet, trivial⟩
  · exact ((grammar_exact _).2.2 _ _ hsma).1 rfl
  · exact ((grammar_exact _).2.2 _ _ hema).2 (by decide)

end TradingRules.Expression
