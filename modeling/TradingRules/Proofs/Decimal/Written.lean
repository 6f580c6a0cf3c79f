/-
# Finite numbers as they are written

A number is written with an optional sign, digits with at most one point, and an optional exponent.
What stands for a magnitude in the range of double precision is read as the number nearest to it, with
the sign; what stands for a larger one, and the words for infinity and for no number, give no finite
number.
-/
import TradingRules.Proofs.Decimal.Numeral
import TradingRules.Proofs.Double.Unpacked

namespace TradingRules.Decimal

open TradingRules.Text

/-- A text without a sign writes a finite number: the nearest one to what the digits and the exponent
stand for. -/
def WritesMagnitude (text : List Char) (x : Float) : Prop :=
  ∃ whole fraction exponent numeral tail, IsNumeral whole fraction numeral ∧
    IsExponent exponent tail ∧ text = numeral ++ tail ∧
    value ⟨digitsValue (whole ++ fraction), exponent - fraction.length⟩ < overflow ∧
    IsNearest (value ⟨digitsValue (whole ++ fraction), exponent - fraction.length⟩) x

/-- A text writes a finite number. -/
def WritesFinite (text : List Char) (x : Float) : Prop :=
  ∃ negative sign rest y, IsSign negative sign ∧ text = sign ++ rest ∧ WritesMagnitude rest y ∧
    x = if negative then -y else y

/-- The words are not those of finite numbers. -/
theorem isFinite_of_readWord {text : List Char} {x : Float} (h : readWord text = some x) :
    x.isFinite = false := by
  unfold readWord at h
  simp only at h
  split_ifs at h
  · cases h
    decide +kernel
  · cases h
    decide +kernel

/-- A finite number is read without a sign exactly off the texts that write it. -/
theorem readUnsigned_finite_iff {text : List Char} {x : Float} :
    readUnsigned text = some x ∧ x.isFinite = true ↔ WritesMagnitude text x := by
  unfold readUnsigned
  constructor
  · rintro ⟨hread, hfinite⟩
    split at hread
    · rename_i p hparts
      obtain ⟨numeral, tail, hnumeral, hexponent, htext⟩ := readParts_eq_some_iff.mp hparts
      cases hread
      have hrounded := isCorrectlyRounded_nearest (digitsValue (p.whole ++ p.fraction))
        (p.exponent - p.fraction.length)
      exact ⟨p.whole, p.fraction, p.exponent, numeral, tail, hnumeral, hexponent, htext,
        hrounded.isFinite_iff.mp hfinite, hrounded.isNearest hfinite⟩
    · rw [isFinite_of_readWord hread] at hfinite
      cases hfinite
  · rintro ⟨whole, fraction, exponent, numeral, tail, hnumeral, hexponent, htext, hlt, hnearest⟩
    have hparts : readParts text = some ⟨whole, fraction, exponent⟩ :=
      readParts_eq_some_iff.mpr ⟨numeral, tail, hnumeral, hexponent, htext⟩
    have hrounded := isCorrectlyRounded_nearest (digitsValue (whole ++ fraction))
      (exponent - fraction.length)
    have hfinite := hrounded.isFinite_iff.mpr hlt
    have hx : x = nearest (digitsValue (whole ++ fraction)) (exponent - fraction.length) :=
      hnearest.unique (hrounded.isNearest hfinite)
    rw [hparts, hx]
    exact ⟨rfl, hfinite⟩

/-- What writes a magnitude does not begin with a sign. -/
theorem WritesMagnitude.head?_ne {text : List Char} {x : Float} (h : WritesMagnitude text x) :
    text.head? ≠ some '-' ∧ text.head? ≠ some '+' := by
  obtain ⟨whole, fraction, exponent, numeral, tail, hnumeral, -, rfl, -⟩ := h
  obtain ⟨hne, hplain⟩ := hnumeral.isPlainChar
  rw [List.head?_append_of_ne_nil _ hne]
  have hsign {c : Char} (hc : ¬ IsPlainChar c) : numeral.head? ≠ some c :=
    fun hfirst => hc (hplain c (List.mem_of_head? hfirst))
  constructor
  · apply hsign
    unfold IsPlainChar
    decide
  · apply hsign
    unfold IsPlainChar
    decide

/-- The sign of a number is read first. -/
theorem read_append {negative : Bool} {sign rest : List Char} (hsign : IsSign negative sign)
    (hhead : sign = [] → rest.head? ≠ some '-' ∧ rest.head? ≠ some '+') (hne : sign ++ rest ≠ []) :
    read (sign ++ rest) = (readUnsigned rest).elim (.error .invalid)
      fun x => .ok (if negative then -x else x) := by
  unfold read
  cases negative with
  | true =>
    obtain rfl : sign = ['-'] := hsign
    show ((readUnsigned rest).map Float.neg).elim _ _ = _
    rw [Option.elim_map]
    rfl
  | false =>
    rcases hsign with rfl | rfl
    · obtain ⟨hminus, hplus⟩ := hhead rfl
      split
      · rename_i hnil
        exact absurd hnil hne
      · rename_i hfirst
        exact absurd (congrArg List.head? hfirst) hminus
      · rename_i hfirst
        exact absurd (congrArg List.head? hfirst) hplus
      · rfl
    · rfl

/-- A finite number is read exactly off the texts that write it. -/
theorem read_finite_iff {text : List Char} {x : Float} :
    read text = .ok x ∧ x.isFinite = true ↔ WritesFinite text x := by
  have hfinite_iff (negative : Bool) (y : Float) :
      (if negative then -y else y).isFinite = y.isFinite := by
    cases negative with
    | true => exact Double.isFinite_neg y
    | false => rfl
  constructor
  · rintro ⟨hread, hfinite⟩
    have hne : text ≠ [] := by
      rintro rfl
      cases hread
    obtain ⟨negative, sign, rest, hsign, rfl, hhead⟩ := exists_isSign text
    rw [read_append hsign hhead hne] at hread
    cases hunsigned : readUnsigned rest with
    | none =>
      rw [hunsigned] at hread
      cases hread
    | some y =>
      rw [hunsigned] at hread
      obtain rfl : (if negative then -y else y) = x := Except.ok.inj hread
      rw [hfinite_iff] at hfinite
      exact ⟨negative, sign, rest, y, hsign, rfl,
        readUnsigned_finite_iff.mp ⟨hunsigned, hfinite⟩, rfl⟩
  · rintro ⟨negative, sign, rest, y, hsign, rfl, hwrites, rfl⟩
    obtain ⟨hunsigned, hfinite⟩ := readUnsigned_finite_iff.mpr hwrites
    have hne : sign ++ rest ≠ [] := by
      intro hnil
      obtain ⟨-, rfl⟩ := List.append_eq_nil_iff.mp hnil
      cases hunsigned
    rw [read_append hsign (fun _ => hwrites.head?_ne) hne, hunsigned, hfinite_iff]
    exact ⟨rfl, hfinite⟩

end TradingRules.Decimal
