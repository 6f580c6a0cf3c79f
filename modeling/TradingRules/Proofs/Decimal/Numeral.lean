/-
# Numerals

A number is written with digits, at least one of them, at most one point and an exponent, if there is
one. Where the digits end and the exponent begins is settled by the text. So a row of digits and points
alone is read as a number exactly if it has a digit and at most one point, and the number is the nearest
one to what the digits stand for.
-/
import TradingRules.Decimal.Reading
import TradingRules.Proofs.Text.Scan

namespace TradingRules.Decimal

open TradingRules.Text

/-- A text of digits with at most one point: the digits in front of it and those behind it. -/
structure IsNumeral (whole fraction text : List Char) : Prop where
  isDigit_whole : ∀ c ∈ whole, c.isDigit = true
  isDigit_fraction : ∀ c ∈ fraction, c.isDigit = true
  exists_digit : whole ≠ [] ∨ fraction ≠ []
  text_eq : text = whole ++ '.' :: fraction ∨ text = whole ∧ fraction = []

/-- A character of a numeral is a digit or the point. -/
def IsPlainChar (c : Char) : Prop := c.isDigit = true ∨ c = '.'

/-- A numeral consists of digits and points. -/
theorem IsNumeral.isPlainChar {whole fraction text : List Char}
    (h : IsNumeral whole fraction text) : text ≠ [] ∧ ∀ c ∈ text, IsPlainChar c := by
  rcases h.text_eq with rfl | ⟨rfl, hfraction⟩
  · refine ⟨by simp, fun c hc => ?_⟩
    rcases List.mem_append.mp hc with hc | hc
    · exact Or.inl (h.isDigit_whole c hc)
    · rcases List.mem_cons.mp hc with rfl | hc
      · exact Or.inr rfl
      · exact Or.inl (h.isDigit_fraction c hc)
  · exact ⟨h.exists_digit.resolve_right (not_not_intro hfraction),
      fun c hc => Or.inl (h.isDigit_whole c hc)⟩

/-! ## Exponents -/

/-- How a sign is written. Nothing counts as a plus sign. -/
def IsSign (negative : Bool) (text : List Char) : Prop :=
  if negative then text = ['-'] else text = [] ∨ text = ['+']

/-- How an exponent is written: not at all, or as a letter `e`, a sign and at least one digit. -/
def IsExponent (exponent : Int) (text : List Char) : Prop :=
  text = [] ∧ exponent = 0 ∨
    ∃ mark negative sign digits, (mark = 'e' ∨ mark = 'E') ∧ IsSign negative sign ∧ digits ≠ [] ∧
      (∀ c ∈ digits, c.isDigit = true) ∧ text = mark :: (sign ++ digits) ∧
      exponent = if negative then -(digitsValue digits : Int) else digitsValue digits

/-- Where an exponent begins the digits and the point end. -/
theorem IsExponent.not_isPlainChar {exponent : Int} {text : List Char} (h : IsExponent exponent text)
    {c : Char} (hc : text.head? = some c) : ¬ IsPlainChar c := by
  rcases h with ⟨rfl, -⟩ | ⟨mark, negative, sign, digits, hmark, -, -, -, rfl, -⟩
  · cases hc
  · cases hc
    rcases hmark with rfl | rfl <;> unfold IsPlainChar <;> decide

/-- A text is split behind its sign, if it has one. -/
theorem exists_isSign (text : List Char) : ∃ negative sign rest, IsSign negative sign ∧
    text = sign ++ rest ∧ (sign = [] → rest.head? ≠ some '-' ∧ rest.head? ≠ some '+') := by
  by_cases hminus : text.head? = some '-'
  · obtain ⟨rest, rfl⟩ := List.head?_eq_some_iff.mp hminus
    exact ⟨true, ['-'], rest, rfl, rfl, nofun⟩
  · by_cases hplus : text.head? = some '+'
    · obtain ⟨rest, rfl⟩ := List.head?_eq_some_iff.mp hplus
      exact ⟨false, ['+'], rest, Or.inr rfl, rfl, nofun⟩
    · exact ⟨false, [], text, Or.inl rfl, rfl, fun _ => ⟨hminus, hplus⟩⟩

/-- The sign of an exponent is read first. -/
theorem readExponent_cons {mark : Char} (hmark : mark = 'e' ∨ mark = 'E') {negative : Bool}
    {sign digits : List Char} (hsign : IsSign negative sign)
    (hhead : sign = [] → digits.head? ≠ some '-' ∧ digits.head? ≠ some '+') :
    readExponent (mark :: (sign ++ digits)) =
      if digits.isEmpty || !digits.all Char.isDigit then none
      else if negative then some (-(digitsValue digits : Int)) else some (digitsValue digits) := by
  unfold readExponent
  simp only [if_pos hmark]
  cases negative with
  | true =>
    obtain rfl : sign = ['-'] := hsign
    rfl
  | false =>
    rcases hsign with rfl | rfl
    · obtain ⟨hminus, hplus⟩ := hhead rfl
      split
      · rename_i hfirst
        exact absurd (congrArg List.head? hfirst) hminus
      · rename_i hfirst
        exact absurd (congrArg List.head? hfirst) hplus
      · rfl
    · rfl

/-- An exponent is read exactly off the texts that write one. -/
theorem readExponent_eq_some_iff {text : List Char} {exponent : Int} :
    readExponent text = some exponent ↔ IsExponent exponent text := by
  constructor
  · intro h
    cases text with
    | nil => exact Or.inl ⟨rfl, (Option.some.inj h).symm⟩
    | cons mark rest =>
      have hmark : mark = 'e' ∨ mark = 'E' := by
        by_contra hmark
        unfold readExponent at h
        simp only [if_neg hmark] at h
        cases h
      obtain ⟨negative, sign, digits, hsign, rfl, hhead⟩ := exists_isSign rest
      rw [readExponent_cons hmark hsign hhead] at h
      split_ifs at h with hinvalid hnegative
      all_goals
        rw [Bool.or_eq_true, List.isEmpty_iff, Bool.not_eq_true', not_or, Bool.not_eq_false,
          List.all_eq_true] at hinvalid
        refine Or.inr ⟨mark, negative, sign, digits, hmark, hsign, hinvalid.1, hinvalid.2, rfl, ?_⟩
        rw [← Option.some.inj h]
      · rw [if_pos hnegative]
      · rw [if_neg hnegative]
  · rintro (⟨rfl, rfl⟩ | ⟨mark, negative, sign, digits, hmark, hsign, hne, hdigits, rfl, rfl⟩)
    · rfl
    · have hhead (c : Char) (hc : c.isDigit = false) : digits.head? ≠ some c := by
        intro hfirst
        rw [hdigits c (List.mem_of_head? hfirst)] at hc
        cases hc
      have hvalid : (digits.isEmpty || !digits.all Char.isDigit) = false := by
        rw [List.isEmpty_eq_false_iff.mpr hne, List.all_eq_true.mpr hdigits]
        rfl
      rw [readExponent_cons hmark hsign fun _ => ⟨hhead '-' rfl, hhead '+' rfl⟩, hvalid,
        if_neg Bool.false_ne_true]
      split_ifs <;> rfl

/-! ## Digits in front of an exponent -/

/-- Digits with at most one point are read in front of what is no part of them. -/
theorem readParts_append {whole fraction numeral tail : List Char}
    (h : IsNumeral whole fraction numeral)
    (htail : ∀ c, tail.head? = some c → ¬ IsPlainChar c) :
    readParts (numeral ++ tail) =
      (readExponent tail).map fun exponent => ⟨whole, fraction, exponent⟩ := by
  have hempty : (whole.isEmpty && fraction.isEmpty) = false := by
    rw [Bool.and_eq_false_iff, List.isEmpty_eq_false_iff, List.isEmpty_eq_false_iff]
    exact h.exists_digit
  have hdigit (c : Char) (hc : tail.head? = some c) : c.isDigit = false := by
    rw [Bool.eq_false_iff]
    exact fun hdigit => htail c hc (Or.inl hdigit)
  unfold readParts
  rcases h.text_eq with rfl | ⟨rfl, rfl⟩
  · obtain ⟨htake, hdrop⟩ := span_append h.isDigit_whole ('.' :: (fraction ++ tail)) (by simp)
    obtain ⟨htake', hdrop'⟩ := span_append h.isDigit_fraction tail hdigit
    simp only [List.append_assoc, List.cons_append, htake, hdrop, htake', hdrop', hempty]
    rfl
  · obtain ⟨htake, hdrop⟩ := span_append h.isDigit_whole tail hdigit
    simp only [htake, hdrop]
    split
    · exact absurd (Or.inr rfl) (htail '.' rfl)
    · simp only [hempty]
      rfl

/-- Every number is taken apart into its digits and its exponent, and in one way only. -/
theorem readParts_eq_some_iff {text : List Char} {p : Parts} :
    readParts text = some p ↔ ∃ numeral tail, IsNumeral p.whole p.fraction numeral ∧
      IsExponent p.exponent tail ∧ text = numeral ++ tail := by
  constructor
  · intro h
    have hsplit : text.takeWhile Char.isDigit ++ text.dropWhile Char.isDigit = text :=
      List.takeWhile_append_dropWhile
    have hwhole : ∀ c ∈ text.takeWhile Char.isDigit, c.isDigit = true :=
      fun c hc => List.mem_takeWhile_imp hc
    unfold readParts at h
    simp only at h
    split at h
    · -- a point follows the digits
      rename_i rest hpoint
      rw [hpoint] at hsplit
      simp only at h
      split_ifs at h with hempty
      obtain ⟨exponent, hexponent, rfl⟩ := Option.map_eq_some_iff.mp h
      rw [Bool.and_eq_true, List.isEmpty_iff, List.isEmpty_iff, not_and_or] at hempty
      refine ⟨text.takeWhile Char.isDigit ++ '.' :: rest.takeWhile Char.isDigit,
        rest.dropWhile Char.isDigit,
        ⟨hwhole, fun c hc => List.mem_takeWhile_imp hc, hempty, Or.inl rfl⟩,
        readExponent_eq_some_iff.mp hexponent, ?_⟩
      rw [List.append_assoc, List.cons_append, List.takeWhile_append_dropWhile, hsplit]
    · simp only at h
      split_ifs at h with hempty
      obtain ⟨exponent, hexponent, rfl⟩ := Option.map_eq_some_iff.mp h
      rw [Bool.and_eq_true, List.isEmpty_iff, List.isEmpty_iff, not_and_or] at hempty
      exact ⟨text.takeWhile Char.isDigit, text.dropWhile Char.isDigit,
        ⟨hwhole, fun c hc => absurd hc List.not_mem_nil, hempty, Or.inr ⟨rfl, rfl⟩⟩,
        readExponent_eq_some_iff.mp hexponent, hsplit.symm⟩
  · rintro ⟨numeral, tail, hnumeral, hexponent, rfl⟩
    rw [readParts_append hnumeral fun c hc => hexponent.not_isPlainChar hc,
      readExponent_eq_some_iff.mpr hexponent]
    rfl

/-! ## Rows of digits and points -/

/-- Digits and points write no exponent. -/
theorem IsExponent.eq_nil {exponent : Int} {text : List Char} (h : IsExponent exponent text)
    (hplain : ∀ c ∈ text, IsPlainChar c) : text = [] ∧ exponent = 0 := by
  rcases h with hnil | ⟨mark, negative, sign, digits, hmark, -, -, -, rfl, -⟩
  · exact hnil
  · have hletter := hplain mark List.mem_cons_self
    exfalso
    revert hletter
    rcases hmark with rfl | rfl <;> unfold IsPlainChar <;> decide

/-- A row of digits and points is taken apart exactly if it is a numeral. -/
theorem readParts_eq_some_iff_of_plain {text : List Char} {p : Parts}
    (hplain : ∀ c ∈ text, IsPlainChar c) :
    readParts text = some p ↔ IsNumeral p.whole p.fraction text ∧ p.exponent = 0 := by
  rw [readParts_eq_some_iff]
  constructor
  · rintro ⟨numeral, tail, hnumeral, hexponent, rfl⟩
    obtain ⟨rfl, hzero⟩ := hexponent.eq_nil fun c hc => hplain c (List.mem_append_right numeral hc)
    rw [List.append_nil]
    exact ⟨hnumeral, hzero⟩
  · rintro ⟨hnumeral, hzero⟩
    exact ⟨text, [], hnumeral, Or.inl ⟨rfl, hzero⟩, (List.append_nil text).symm⟩

/-- A digit or a point is no letter. -/
theorem IsPlainChar.toLower_eq {c : Char} (h : IsPlainChar c) : c.toLower = c := by
  have hlow : c.toNat ≤ '9'.toNat := by
    rcases h with hdigit | rfl
    · rw [Char.isDigit, Bool.and_eq_true, decide_eq_true_eq, decide_eq_true_eq] at hdigit
      exact hdigit.2
    · decide
  refine dif_neg fun hupper => ?_
  have hletter : 'A'.toNat ≤ c.toNat := hupper.1
  exact absurd (hletter.trans hlow) (by decide)

/-- Digits and points write neither of the words. -/
theorem readWord_eq_none {text : List Char} (hne : text ≠ [])
    (hplain : ∀ c ∈ text, IsPlainChar c) : readWord text = none := by
  cases text with
  | nil => exact absurd rfl hne
  | cons c rest =>
    have hc : IsPlainChar c := hplain c List.mem_cons_self
    have hi : c ≠ 'i' := by
      rintro rfl
      revert hc
      unfold IsPlainChar
      decide
    have hn : c ≠ 'n' := by
      rintro rfl
      revert hc
      unfold IsPlainChar
      decide
    unfold readWord
    simp only [List.map_cons, hc.toLower_eq]
    rw [if_neg, if_neg]
    · exact fun h => hn (List.cons.inj h).1
    · rintro (h | h) <;> exact hi (List.cons.inj h).1

/-- Digits and points are read without a sign. -/
theorem read_eq_readUnsigned {text : List Char} (hne : text ≠ [])
    (hplain : ∀ c ∈ text, IsPlainChar c) :
    read text = (readUnsigned text).elim (.error .invalid) .ok := by
  have hsign {c : Char} (hc : IsPlainChar c) : c ≠ '-' ∧ c ≠ '+' := by
    constructor <;> rintro rfl <;> revert hc <;> unfold IsPlainChar <;> decide
  unfold read
  split
  · exact absurd rfl hne
  · exact absurd rfl (hsign (hplain _ List.mem_cons_self)).1
  · exact absurd rfl (hsign (hplain _ List.mem_cons_self)).2
  · rfl

/-- A row of digits and points is read exactly if it is a numeral, as the number nearest to what it
stands for. -/
theorem read_eq_ok_iff {text : List Char} {x : Float} (hne : text ≠ [])
    (hplain : ∀ c ∈ text, IsPlainChar c) :
    read text = .ok x ↔ ∃ whole fraction, IsNumeral whole fraction text ∧
      x = nearest (digitsValue (whole ++ fraction)) (0 - fraction.length) := by
  rw [read_eq_readUnsigned hne hplain]
  unfold readUnsigned
  constructor
  · intro h
    split at h
    · rename_i p hparts
      obtain ⟨hnumeral, hexponent⟩ := (readParts_eq_some_iff_of_plain hplain).mp hparts
      cases h
      exact ⟨p.whole, p.fraction, hnumeral, by rw [Parts.value, hexponent]⟩
    · rw [readWord_eq_none hne hplain] at h
      cases h
  · rintro ⟨whole, fraction, hnumeral, rfl⟩
    have hparts : readParts text = some ⟨whole, fraction, 0⟩ :=
      (readParts_eq_some_iff_of_plain hplain).mpr ⟨hnumeral, rfl⟩
    rw [hparts]
    rfl

end TradingRules.Decimal
