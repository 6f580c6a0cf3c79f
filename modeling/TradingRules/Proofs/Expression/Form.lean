/-
# The forms of an expression

An expression is written in one of five forms. The forms are told apart by the first characters of
what is written, so no reader that is tried earlier takes a clause from its own reader, and a clause
in none of the forms is refused.
-/
import Mathlib.Algebra.Group.Nat.Defs
import Mathlib.Tactic.SplitIfs
import TradingRules.Expression.Parser
import TradingRules.Proofs.Decimal.Numeral
import TradingRules.Proofs.Text.Scan

namespace TradingRules.Expression

open TradingRules.Text
open TradingRules.Decimal (IsNumeral IsPlainChar nearest)

/-- The forms in which an expression is written, with what varies in each of them. -/
inductive Form where
  | tweetContains (text : List Char)
  | volume
  | price
  | indicator (kind : Indicator.Kind) (digits : List Char)
  | literal (whole fraction : List Char)

namespace Form

/-- A clause is written in a form. -/
def Spells : Form → List Char → Prop
  | .tweetContains text, clause => IsQuotedCall "tweet.contains".toList text [] clause
  | .volume, clause => clause = "token.volume".toList
  | .price, clause => clause = "price".toList
  | .indicator kind digits, clause => IsIntegerCall kind.keyword.toList digits [] clause
  | .literal whole fraction, clause => IsNumeral whole fraction clause

/-- What becomes of a clause that is written in a form. -/
def outcome : Form → List Char → Except SyntaxError Expression
  | .tweetContains text, _ => .ok (.tweetContains (String.ofList text))
  | .volume, _ => .ok .volume
  | .price, _ => .ok .price
  | .indicator kind digits, clause => ofDigits kind digits clause
  | .literal whole fraction, clause =>
    let value := nearest (digitsValue (whole ++ fraction)) (0 - fraction.length)
    if value.isFinite then .ok (.literal value)
    else .error (.literalOutOfRange (String.ofList clause))

end Form

/-- Digits are read as the period that they stand for, if it is positive and fits into 64 bits. -/
theorem ofDigits_eq_ok_iff {kind : Indicator.Kind} {digits clause : List Char} {e : Expression} :
    ofDigits kind digits clause = .ok e ↔
      (1 ≤ digitsValue digits ∧ digitsValue digits ≤ 2 ^ 64 - 1) ∧
        ∃ period : UInt64, period.toNat = digitsValue digits ∧ e = .indicator ⟨kind, period⟩ := by
  have hbound : wordBound = 2 ^ 64 := rfl
  unfold ofDigits
  simp only
  split_ifs with hlarge hzero
  · refine ⟨nofun, fun h => ?_⟩
    omega
  · refine ⟨nofun, fun h => ?_⟩
    omega
  · have hperiod : (UInt64.ofNat (digitsValue digits)).toNat = digitsValue digits :=
      UInt64.toNat_ofNat_of_lt' (Nat.lt_of_not_le hlarge)
    constructor
    · intro h
      cases h
      exact ⟨by omega, _, hperiod, rfl⟩
    · rintro ⟨-, period, hvalue, rfl⟩
      rw [UInt64.toNat_inj.mp (hvalue.trans hperiod.symm)]

/-! ## How the forms are told apart -/

/-- A word is not read off a text that begins with another letter. -/
theorem afterWord_eq_none {first c : Char} (h : first ≠ c) (word rest : List Char) :
    afterWord (first :: word) (c :: rest) = none := by
  simp [afterWord, List.isPrefixOf, h]

/-- A quoted call is not read off a text that begins with another letter. -/
theorem quotedCall_eq_none {first c : Char} (h : first ≠ c) (word rest : List Char) :
    whole (quotedCall (first :: word)) (c :: rest) = none := by
  rw [whole, quotedCall, afterWord_eq_none h]
  rfl

/-- An indicator call is not read off a text that begins with another letter. -/
theorem integerCall_eq_none {first c : Char} (h : first ≠ c) (word rest : List Char) :
    whole (integerCall (first :: word)) (c :: rest) = none := by
  rw [whole, integerCall, afterWord_eq_none h]
  rfl

/-- A clause that begins with neither `t` nor `p` is an indicator call or a number. -/
theorem ofClause_of_ne {c : Char} (ht : 't' ≠ c) (hp : 'p' ≠ c) (rest : List Char) :
    ofClause (c :: rest) =
      match whole (integerCall "rsi".toList) (c :: rest) with
      | some digits => ofDigits .rsi digits (c :: rest)
      | none =>
        match whole (integerCall "sma".toList) (c :: rest) with
        | some digits => ofDigits .sma digits (c :: rest)
        | none =>
          match whole (integerCall "ema".toList) (c :: rest) with
          | some digits => ofDigits .ema digits (c :: rest)
          | none =>
            if isPlain (c :: rest) then ofNumber (c :: rest)
            else .error (.unknownExpression (String.ofList (c :: rest))) := by
  have htweet : whole (quotedCall "tweet.contains".toList) (c :: rest) = none :=
    quotedCall_eq_none ht _ _
  have hvolume : c :: rest ≠ "token.volume".toList := fun h => ht (List.cons.inj h).1.symm
  have hprice : c :: rest ≠ "price".toList := fun h => hp (List.cons.inj h).1.symm
  unfold ofClause
  rw [htweet]
  exact (if_neg hvolume).trans (if_neg hprice)

/-- A clause is plain if it consists of digits and points. -/
theorem isPlain_iff {clause : List Char} :
    isPlain clause = true ↔ clause ≠ [] ∧ ∀ c ∈ clause, IsPlainChar c := by
  simp [isPlain, IsPlainChar]

/-- A numeral is read by the reader of numbers. -/
theorem ofClause_of_isNumeral {digits fraction clause : List Char}
    (h : IsNumeral digits fraction clause) :
    ofClause clause = (Form.literal digits fraction).outcome clause := by
  obtain ⟨hne, hplain⟩ := h.isPlainChar
  have hread := (Decimal.read_eq_ok_iff hne hplain).mpr ⟨digits, fraction, h, rfl⟩
  have hnumber : ofNumber clause = (Form.literal digits fraction).outcome clause := by
    rw [ofNumber, hread]
    rfl
  rw [← hnumber]
  cases clause with
  | nil => exact absurd rfl hne
  | cons c rest =>
    -- a digit or a point begins no keyword
    have hletters : ∀ first ∈ ['t', 'p', 'r', 's', 'e'], ¬ IsPlainChar first := by
      simp [IsPlainChar, Char.isDigit]
    have hc : ∀ first ∈ ['t', 'p', 'r', 's', 'e'], first ≠ c :=
      fun first hfirst heq => hletters first hfirst (heq ▸ hplain c List.mem_cons_self)
    have hrsi : whole (integerCall "rsi".toList) (c :: rest) = none :=
      integerCall_eq_none (hc 'r' (by decide)) _ _
    have hsma : whole (integerCall "sma".toList) (c :: rest) = none :=
      integerCall_eq_none (hc 's' (by decide)) _ _
    have hema : whole (integerCall "ema".toList) (c :: rest) = none :=
      integerCall_eq_none (hc 'e' (by decide)) _ _
    rw [ofClause_of_ne (hc 't' (by decide)) (hc 'p' (by decide)), hrsi, hsma, hema,
      if_pos (isPlain_iff.mpr ⟨hne, hplain⟩)]

/-- An indicator call is read by the reader of its keyword. -/
theorem ofClause_of_isIntegerCall {kind : Indicator.Kind} {digits clause : List Char}
    (h : IsIntegerCall kind.keyword.toList digits [] clause) :
    ofClause clause = ofDigits kind digits clause := by
  have hread : whole (integerCall kind.keyword.toList) clause = some digits :=
    whole_eq_some_iff.mpr (integerCall_eq_some_iff.mpr h)
  obtain ⟨middle, htext⟩ := h.exists_eq_append
  cases kind with
  | rsi =>
    obtain ⟨rest, rfl⟩ : ∃ rest, clause = 'r' :: rest := ⟨_, htext⟩
    have hrsi : whole (integerCall "rsi".toList) ('r' :: rest) = some digits := hread
    rw [ofClause_of_ne (by decide) (by decide), hrsi]
  | sma =>
    obtain ⟨rest, rfl⟩ : ∃ rest, clause = 's' :: rest := ⟨_, htext⟩
    have hrsi : whole (integerCall "rsi".toList) ('s' :: rest) = none :=
      integerCall_eq_none (by decide) _ _
    have hsma : whole (integerCall "sma".toList) ('s' :: rest) = some digits := hread
    rw [ofClause_of_ne (by decide) (by decide), hrsi, hsma]
  | ema =>
    obtain ⟨rest, rfl⟩ : ∃ rest, clause = 'e' :: rest := ⟨_, htext⟩
    have hrsi : whole (integerCall "rsi".toList) ('e' :: rest) = none :=
      integerCall_eq_none (by decide) _ _
    have hsma : whole (integerCall "sma".toList) ('e' :: rest) = none :=
      integerCall_eq_none (by decide) _ _
    have hema : whole (integerCall "ema".toList) ('e' :: rest) = some digits := hread
    rw [ofClause_of_ne (by decide) (by decide), hrsi, hsma, hema]

/-- A clause in a form is read by the reader of the form. -/
theorem ofClause_of_spells {f : Form} {clause : List Char} (h : f.Spells clause) :
    ofClause clause = f.outcome clause := by
  cases f with
  | tweetContains text =>
    have hread : whole (quotedCall "tweet.contains".toList) clause = some text :=
      whole_eq_some_iff.mpr (quotedCall_eq_some_iff.mpr h)
    rw [ofClause, hread]
    rfl
  | volume =>
    cases h
    rfl
  | price =>
    cases h
    rfl
  | indicator kind digits => exact ofClause_of_isIntegerCall h
  | literal whole fraction => exact ofClause_of_isNumeral h

/-- A clause in none of the forms is refused. -/
theorem exists_spells_or (clause : List Char) :
    (∃ f : Form, f.Spells clause) ∨
      ofClause clause = .error (.unknownExpression (String.ofList clause)) := by
  have hcall (kind : Indicator.Kind) {digits : List Char}
      (h : whole (integerCall kind.keyword.toList) clause = some digits) :
      ∃ f : Form, f.Spells clause :=
    ⟨.indicator kind digits, integerCall_eq_some_iff.mp (whole_eq_some_iff.mp h)⟩
  unfold ofClause
  split
  · rename_i text htext
    exact Or.inl ⟨.tweetContains text, quotedCall_eq_some_iff.mp (whole_eq_some_iff.mp htext)⟩
  by_cases hvolume : clause = "token.volume".toList
  · exact Or.inl ⟨.volume, hvolume⟩
  by_cases hprice : clause = "price".toList
  · exact Or.inl ⟨.price, hprice⟩
  rw [if_neg hvolume, if_neg hprice]
  -- the three indicators are tried one after the other
  split
  · exact Or.inl (hcall .rsi ‹_›)
  split
  · exact Or.inl (hcall .sma ‹_›)
  split
  · exact Or.inl (hcall .ema ‹_›)
  split_ifs with hplain
  · obtain ⟨hne, hchars⟩ := isPlain_iff.mp hplain
    unfold ofNumber
    split
    · rename_i value hread
      obtain ⟨digits, fraction, hnumeral, -⟩ := (Decimal.read_eq_ok_iff hne hchars).mp hread
      exact Or.inl ⟨.literal digits fraction, hnumeral⟩
    · exact Or.inr rfl
  · exact Or.inr rfl

/-- An accepted clause is written in a form, and the form decides what becomes of it. -/
theorem exists_spells_of_ofClause {clause : List Char} {e : Expression}
    (h : ofClause clause = .ok e) : ∃ f : Form, f.Spells clause ∧ f.outcome clause = .ok e := by
  rcases exists_spells_or clause with ⟨f, hf⟩ | herror
  · exact ⟨f, hf, (ofClause_of_spells hf).symm.trans h⟩
  · rw [herror] at h
    cases h

end TradingRules.Expression
