/-
# What is read as an unsigned number

A text is read as a number exactly if it writes the number in digits, with or without a plus sign,
and the number fits into 64 bits. Leading zeros do not matter: the bound is on the number, which never
gets smaller as digits follow.
-/
import Mathlib.Algebra.Group.Nat.Defs
import TradingRules.Text.Natural

namespace TradingRules.Text

/-- The value of a row of digits that follows the number `n`. -/
def valueFrom (n : Nat) (digits : List Char) : Nat :=
  digits.foldl (fun n c => 10 * n + (c.toNat - '0'.toNat)) n

/-- A number does not get smaller as digits follow. -/
theorem le_valueFrom (n : Nat) (digits : List Char) : n ≤ valueFrom n digits := by
  induction digits generalizing n with
  | nil => exact Nat.le_refl n
  | cons c digits ih =>
    have hlater := ih (10 * n + (c.toNat - '0'.toNat))
    rw [valueFrom, List.foldl_cons, ← valueFrom]
    omega

/-- Reading goes on behind a number exactly as far as there are digits and the number fits. -/
theorem readDigits_eq_ok_iff {n value : Nat} {text : List Char} (hn : n < wordBound) :
    readDigits n text = .ok value ↔
      (∀ c ∈ text, c.isDigit = true) ∧ valueFrom n text = value ∧ value < wordBound := by
  induction text generalizing n with
  | nil =>
    rw [readDigits, Except.ok.injEq]
    constructor
    · rintro rfl
      exact ⟨fun c hc => absurd hc List.not_mem_nil, rfl, hn⟩
    · rintro ⟨-, hvalue, -⟩
      exact hvalue
  | cons c text ih =>
    rw [readDigits, List.forall_mem_cons]
    by_cases hc : c.isDigit = true
    · rw [if_pos hc]
      simp only
      by_cases hnext : 10 * n + (c.toNat - '0'.toNat) < wordBound
      · rw [if_pos hnext, ih hnext]
        simp only [hc, true_and]
        exact Iff.rfl
      · -- the number is out of bounds already, whatever follows
        rw [if_neg hnext]
        constructor
        · intro h
          cases h
        · rintro ⟨-, hvalue, hbound⟩
          have hle := le_valueFrom (10 * n + (c.toNat - '0'.toNat)) text
          have hvalue' : valueFrom (10 * n + (c.toNat - '0'.toNat)) text = value := hvalue
          omega
    · rw [if_neg hc]
      constructor
      · intro h
        cases h
      · rintro ⟨⟨hdigit, -⟩, -⟩
        exact absurd hdigit hc

/-- A text writes a number in digits, with or without a plus sign. -/
def Writes (n : Nat) (text : List Char) : Prop :=
  ∃ digits, (text = digits ∨ text = '+' :: digits) ∧ digits ≠ [] ∧
    (∀ c ∈ digits, c.isDigit = true) ∧ digitsValue digits = n

/-- A digit is no plus sign. -/
theorem head?_ne_plus {digits : List Char} (h : ∀ c ∈ digits, c.isDigit = true) :
    digits.head? ≠ some '+' := by
  intro hhead
  have hplus := h '+' (List.mem_of_head? hhead)
  revert hplus
  decide

/-- A text writes one number. -/
theorem Writes.unique {m n : Nat} {text : List Char} (hm : Writes m text) (hn : Writes n text) :
    m = n := by
  obtain ⟨digits, htext, -, hdigits, rfl⟩ := hm
  obtain ⟨digits', htext', -, hdigits', rfl⟩ := hn
  rcases htext with rfl | rfl
  · rcases htext' with rfl | rfl
    · rfl
    · exact absurd rfl (head?_ne_plus hdigits)
  · rcases htext' with rfl | htext'
    · exact absurd rfl (head?_ne_plus hdigits')
    · cases htext'
      rfl

/-- A number is read exactly off the texts that write it, if it fits. -/
theorem readNatural_eq_ok_iff {text : List Char} {n : Nat} :
    readNatural text = .ok n ↔ Writes n text ∧ n < 2 ^ 64 := by
  have hzero : 0 < wordBound := by decide
  have hbound : wordBound = 2 ^ 64 := rfl
  unfold readNatural
  split
  · -- nothing
    constructor
    · intro h
      cases h
    · rintro ⟨⟨digits, htext | htext, hne, -⟩, -⟩
      · exact absurd htext.symm hne
      · cases htext
  · -- a plus sign alone
    constructor
    · intro h
      cases h
    · rintro ⟨⟨digits, htext | htext, hne, hdigits, -⟩, -⟩
      · exact absurd (htext ▸ rfl) (head?_ne_plus hdigits)
      · cases htext
        exact absurd rfl hne
  · -- a plus sign and something behind it
    rename_i rest hrest
    rw [readDigits_eq_ok_iff hzero, hbound]
    constructor
    · rintro ⟨hdigits, hvalue, hfits⟩
      refine ⟨⟨rest, Or.inr rfl, ?_, hdigits, hvalue⟩, hfits⟩
      rintro rfl
      exact hrest rfl
    · rintro ⟨⟨digits, htext | htext, hne, hdigits, hvalue⟩, hfits⟩
      · exact absurd (htext ▸ rfl) (head?_ne_plus hdigits)
      · cases htext
        exact ⟨hdigits, hvalue, hfits⟩
  · -- no plus sign
    rename_i hne hplus hplus'
    rw [readDigits_eq_ok_iff hzero, hbound]
    constructor
    · rintro ⟨hdigits, hvalue, hfits⟩
      exact ⟨⟨text, Or.inl rfl, hne, hdigits, hvalue⟩, hfits⟩
    · rintro ⟨⟨digits, htext | htext, -, hdigits, hvalue⟩, hfits⟩
      · rw [htext]
        exact ⟨hdigits, hvalue, hfits⟩
      · exact absurd htext (hplus' digits)

/-- A text is refused exactly if it writes no number that fits. -/
theorem exists_readNatural_eq_error_iff {text : List Char} :
    (∃ e, readNatural text = .error e) ↔ ∀ n, Writes n text → 2 ^ 64 ≤ n := by
  constructor
  · rintro ⟨e, hread⟩ n hn
    refine Nat.le_of_not_lt fun hfits => ?_
    rw [readNatural_eq_ok_iff.mpr ⟨hn, hfits⟩] at hread
    cases hread
  · intro hall
    cases hread : readNatural text with
    | error e => exact ⟨e, rfl⟩
    | ok n =>
      obtain ⟨hn, hfits⟩ := readNatural_eq_ok_iff.mp hread
      exact absurd (hall n hn) (Nat.not_le_of_lt hfits)

end TradingRules.Text
