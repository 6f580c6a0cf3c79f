/-
# Numbers are written as numerals

Every number, an integer or one of double precision, is written as the text of a numeral, and a
numeral is read off its text, provided that the text behind it does not go on with it. So what a
written number is read as is the value of its numeral.
-/
import TradingRules.Json.Print
import TradingRules.Json.Numeral
import TradingRules.Proofs.Decimal.Digits
import TradingRules.Proofs.Text.Scan

namespace TradingRules.Json

open TradingRules.Decimal

/-! ## Numerals and their texts -/

/-- The text of a fraction, none if it is empty. -/
def fractionText (fraction : List Char) : List Char :=
  if fraction.isEmpty then [] else '.' :: fraction

/-- The text of an exponent, with its sign; none if there is no exponent. -/
def exponentText : Option (Bool × List Char) → List Char
  | none => []
  | some (negative, digits) => 'e' :: (if negative then '-' else '+') :: digits

/-- The text of a numeral. -/
def Numeral.text (n : Numeral) : List Char :=
  (if n.negative then ['-'] else []) ++
    (n.whole ++ (fractionText n.fraction ++ exponentText n.exponent))

/-- Nothing but digits. -/
def AllDigits (text : List Char) : Prop :=
  ∀ c ∈ text, c.isDigit = true

/-- A numeral that can be read: its parts consist of digits, those that must not be empty are not,
and a zero in front stands alone. -/
structure Numeral.WellFormed (n : Numeral) : Prop where
  whole_ne_nil : n.whole ≠ []
  whole_digits : AllDigits n.whole
  zero_alone : n.whole.head? = some '0' → n.whole.length = 1
  fraction_digits : AllDigits n.fraction
  exponent_digits : ∀ negative digits, n.exponent = some (negative, digits) →
    digits ≠ [] ∧ AllDigits digits

/-- A text goes on with no digit. -/
def EndsDigits (text : List Char) : Prop :=
  ∀ c, text.head? = some c → c.isDigit = false

/-- A text does not go on with a numeral. -/
def EndsNumeral (text : List Char) : Prop :=
  ∀ c, text.head? = some c → c.isDigit = false ∧ c ≠ '.' ∧ c ≠ 'e' ∧ c ≠ 'E'

theorem EndsNumeral.endsDigits {text : List Char} (h : EndsNumeral text) : EndsDigits text :=
  fun c hc => (h c hc).1

theorem EndsDigits.cons {c : Char} {text : List Char} (h : c.isDigit = false) :
    EndsDigits (c :: text) := by
  intro c' h'
  cases h'
  exact h

theorem EndsNumeral.nil : EndsNumeral [] := by
  intro c h
  cases h

theorem EndsNumeral.cons {c : Char} (h : c.isDigit = false ∧ c ≠ '.' ∧ c ≠ 'e' ∧ c ≠ 'E')
    (text : List Char) : EndsNumeral (c :: text) := by
  intro c' h'
  cases h'
  exact h

/-- A sign is taken off. -/
theorem takeMinus_append (negative : Bool) {rest : List Char} (h : rest.head? ≠ some '-') :
    takeMinus ((if negative then ['-'] else []) ++ rest) = (negative, rest) := by
  cases negative with
  | true => rfl
  | false =>
    show takeMinus rest = (false, rest)
    unfold takeMinus
    split
    · exact absurd rfl h
    · rfl

theorem not_isEmpty {α : Type} {l : List α} (h : l ≠ []) : ¬ l.isEmpty = true := by
  rwa [List.isEmpty_iff]

/-- The whole part of a numeral is read off. -/
theorem scanWhole_append {n : Numeral} (h : n.WellFormed) {rest : List Char}
    (hrest : EndsDigits rest) : scanWhole (n.whole ++ rest) = .ok (n.whole, rest) := by
  have hzero : ¬ (n.whole.head? = some '0' ∧ n.whole.length > 1) := by
    rintro ⟨hhead, hlength⟩
    rw [h.zero_alone hhead] at hlength
    exact absurd hlength (by decide)
  obtain ⟨htake, hdrop⟩ := Text.span_append h.whole_digits rest hrest
  simp only [scanWhole, htake, hdrop]
  rw [if_neg (not_isEmpty h.whole_ne_nil), if_neg hzero]

/-- The fraction of a numeral is read off, or none if it has none. -/
theorem scanFraction_append {n : Numeral} (h : n.WellFormed) {rest : List Char}
    (hrest : EndsDigits rest) (hpoint : rest.head? ≠ some '.') :
    scanFraction (fractionText n.fraction ++ rest) = .ok (n.fraction, rest) := by
  unfold fractionText
  by_cases hempty : n.fraction.isEmpty = true
  · rw [if_pos hempty, List.nil_append, List.isEmpty_iff.mp hempty]
    cases rest with
    | nil => rfl
    | cons c tail =>
      rw [scanFraction, if_neg]
      rintro rfl
      exact hpoint rfl
  · rw [if_neg hempty, List.cons_append, scanFraction, if_pos rfl]
    obtain ⟨htake, hdrop⟩ := Text.span_append h.fraction_digits rest hrest
    simp only [htake, hdrop]
    rw [if_neg hempty]

/-- The exponent of a numeral is read off, or none if it has none. -/
theorem scanExponent_append {n : Numeral} (h : n.WellFormed) {rest : List Char}
    (hrest : EndsNumeral rest) :
    scanExponent (exponentText n.exponent ++ rest) = .ok (n.exponent, rest) := by
  cases hexponent : n.exponent with
  | none =>
    cases rest with
    | nil => rfl
    | cons c tail =>
      obtain ⟨-, -, he, hE⟩ := hrest c rfl
      rw [exponentText, List.nil_append, scanExponent, if_neg (not_or.mpr ⟨he, hE⟩)]
  | some signed =>
    obtain ⟨negative, digits⟩ := signed
    obtain ⟨hne, hdigits⟩ := h.exponent_digits negative digits hexponent
    have hsign : takeSign ((if negative then '-' else '+') :: (digits ++ rest)) =
        (negative, digits ++ rest) := by
      cases negative <;> rfl
    rw [exponentText, List.cons_append, List.cons_append, scanExponent, if_pos (Or.inl rfl)]
    obtain ⟨htake, hdrop⟩ := Text.span_append hdigits rest hrest.endsDigits
    simp only [hsign, htake, hdrop]
    rw [if_neg (not_isEmpty hne)]

/-- What follows a fraction is an exponent or what follows the numeral. -/
theorem head?_exponentText_append {exponent : Option (Bool × List Char)} {rest : List Char}
    (hrest : EndsNumeral rest) {c : Char} (hc : (exponentText exponent ++ rest).head? = some c) :
    c.isDigit = false ∧ c ≠ '.' := by
  cases exponent with
  | none => exact ⟨(hrest c hc).1, (hrest c hc).2.1⟩
  | some signed =>
    cases hc
    exact ⟨by decide, by decide⟩

/-- What follows the whole part of a numeral is no digit. -/
theorem endsDigits_fractionText_append {fraction rest : List Char} (hrest : EndsDigits rest) :
    EndsDigits (fractionText fraction ++ rest) := by
  unfold fractionText
  split
  · exact hrest
  · exact EndsDigits.cons (by decide)

/-- A digit is no sign. -/
theorem AllDigits.head?_ne_minus {text : List Char} (h : AllDigits text) (hne : text ≠ [])
    (rest : List Char) : (text ++ rest).head? ≠ some '-' := by
  obtain ⟨c, tail, rfl⟩ := List.exists_cons_of_ne_nil hne
  rintro hc
  cases hc
  exact absurd (h '-' List.mem_cons_self) (by decide)

/-- A numeral is read off its text. -/
theorem scanNumeral_text_append {n : Numeral} (h : n.WellFormed) {rest : List Char}
    (hrest : EndsNumeral rest) : scanNumeral (n.text ++ rest) = .ok (n, rest) := by
  have hexponent : EndsDigits (exponentText n.exponent ++ rest) :=
    fun c hc => (head?_exponentText_append hrest hc).1
  have hpoint : (exponentText n.exponent ++ rest).head? ≠ some '.' :=
    fun hc => (head?_exponentText_append hrest hc).2 rfl
  have hsign := takeMinus_append n.negative (h.whole_digits.head?_ne_minus h.whole_ne_nil
    (fractionText n.fraction ++ (exponentText n.exponent ++ rest)))
  unfold Numeral.text
  simp only [List.append_assoc]
  unfold scanNumeral
  rw [hsign, scanWhole_append h (endsDigits_fractionText_append hexponent)]
  simp only [bind, Except.bind, scanFraction_append h hexponent hpoint, scanExponent_append h hrest,
    pure, Except.pure]

/-! ## The numerals of numbers -/

theorem AllDigits.append {s t : List Char} (hs : AllDigits s) (ht : AllDigits t) :
    AllDigits (s ++ t) := by
  intro c hc
  rcases List.mem_append.mp hc with hc | hc
  · exact hs c hc
  · exact ht c hc

theorem AllDigits.of_subset {s t : List Char} (ht : AllDigits t) (h : s ⊆ t) : AllDigits s :=
  fun c hc => ht c (h hc)

theorem allDigits_digitsOf (n : Nat) : AllDigits (digitsOf n) :=
  fun _ hc => isDigit_of_mem_digitsOf hc

theorem allDigits_zeros (n : Nat) : AllDigits (List.replicate n '0') := by
  intro c hc
  rw [List.eq_of_mem_replicate hc]
  decide

/-- The numeral of digits with a decimal point, the leading digit standing for `10 ^ leading`. -/
def positionalNumeral (negative : Bool) (digits : List Char) (leading : Int) : Numeral :=
  if leading < 0 then ⟨negative, ['0'], List.replicate (-leading - 1).toNat '0' ++ digits, none⟩
  else
    let wholeSize := leading.toNat + 1
    let fraction := digits.drop wholeSize
    ⟨negative, digits.take wholeSize ++ List.replicate (wholeSize - digits.length) '0',
      if fraction.isEmpty then ['0'] else fraction, none⟩

/-- The numeral of digits in exponent form, the leading digit standing for `10 ^ leading`. -/
def scientificNumeral (negative : Bool) (digits : List Char) (leading : Int) : Numeral :=
  ⟨negative, digits.take 1, digits.drop 1, some (decide (leading < 0), digitsOf leading.natAbs)⟩

/-- The numeral of a decimal with a sign. -/
def decimalNumeral (negative : Bool) (d : Decimal) : Numeral :=
  let digits := digitsOf d.digits
  let leading := d.exponent + digits.length - 1
  if positionalFrom ≤ leading && leading < positionalBelow then
    positionalNumeral negative digits leading
  else scientificNumeral negative digits leading

/-- The numeral that a number is written as. -/
def Number.numeral : Number → Numeral
  | .integer n => ⟨decide (n < 0), digitsOf n.natAbs, [], none⟩
  | .float x => decimalNumeral (decide (x.toBits >>> 63 ≠ 0)) (shortest x)

/-! ### Their texts -/

theorem text_positionalNumeral (negative : Bool) {digits : List Char} (hne : digits ≠ [])
    (leading : Int) : (positionalNumeral negative digits leading).text =
      (if negative then ['-'] else []) ++ positional digits leading := by
  unfold positionalNumeral positional Numeral.text
  split
  · have hfraction : List.replicate (-leading - 1).toNat '0' ++ digits ≠ [] :=
      List.append_ne_nil_of_right_ne_nil _ hne
    simp only [fractionText, if_neg (not_isEmpty hfraction), exponentText, List.append_nil]
    simp
  · have hfraction : ∀ fraction : List Char,
        ¬ (if fraction.isEmpty then ['0'] else fraction).isEmpty = true := by
      intro fraction
      split
      · decide
      · assumption
    simp only [fractionText, if_neg (hfraction _), exponentText, List.append_nil,
      List.append_assoc]

theorem text_scientificNumeral (negative : Bool) (digits : List Char) (leading : Int) :
    (scientificNumeral negative digits leading).text =
      (if negative then ['-'] else []) ++ scientific digits leading := by
  unfold scientificNumeral scientific Numeral.text
  simp only [fractionText, exponentText, decide_eq_true_eq, List.append_assoc]

theorem text_decimalNumeral (negative : Bool) (d : Decimal) :
    (decimalNumeral negative d).text = (if negative then ['-'] else []) ++ d.text := by
  unfold decimalNumeral Decimal.text
  simp only
  split
  · exact text_positionalNumeral negative (digitsOf_ne_nil _) _
  · exact text_scientificNumeral negative _ _

/-- A number is written as the text of its numeral. -/
theorem Number.text_numeral (n : Number) : n.numeral.text = n.text := by
  cases n with
  | integer n =>
    show Numeral.text ⟨decide (n < 0), digitsOf n.natAbs, [], none⟩ = integerText n
    unfold integerText Numeral.text
    by_cases hn : n < 0 <;> simp [hn, fractionText, exponentText]
  | float x =>
    show (decimalNumeral _ (shortest x)).text = Decimal.write x
    rw [text_decimalNumeral]
    unfold Decimal.write
    by_cases hsign : x.toBits >>> 63 = 0 <;> simp [hsign]

/-! ### They can be read -/

/-- A leading digit that is zero is the only digit of the decimal zero. -/
theorem eq_zero_of_head?_digitsOf {d : Decimal} (hd : d = ⟨0, 0⟩ ∨ d.digits ≠ 0)
    (h : (digitsOf d.digits).head? = some '0') : d = ⟨0, 0⟩ :=
  hd.resolve_right fun hne => head?_digitsOf hne h

theorem wellFormed_positionalNumeral (negative : Bool) {digits : List Char} (hne : digits ≠ [])
    (hdigits : AllDigits digits) {leading : Int}
    (hzero : digits.head? = some '0' → leading = 0) :
    (positionalNumeral negative digits leading).WellFormed := by
  unfold positionalNumeral
  split
  · exact {
      whole_ne_nil := List.cons_ne_nil _ _
      whole_digits := allDigits_zeros 1
      zero_alone := fun _ => rfl
      fraction_digits := (allDigits_zeros _).append hdigits
      exponent_digits := fun _ _ h => nomatch h }
  · obtain ⟨c, tail, rfl⟩ := List.exists_cons_of_ne_nil hne
    exact {
      whole_ne_nil := List.cons_ne_nil _ _
      whole_digits := (hdigits.of_subset (List.take_subset _ _)).append (allDigits_zeros _)
      zero_alone := by
        -- only the number zero has a zero in front, and its one digit is all of its whole part
        intro h
        have hleading := hzero h
        subst hleading
        show (c :: List.replicate (1 - (c :: tail).length) '0').length = 1
        simp
      fraction_digits := by
        show AllDigits (if _ then _ else _)
        split
        · exact allDigits_zeros 1
        · exact hdigits.of_subset (List.drop_subset _ _)
      exponent_digits := fun _ _ h => nomatch h }

theorem wellFormed_scientificNumeral (negative : Bool) {digits : List Char} (hne : digits ≠ [])
    (hdigits : AllDigits digits) (leading : Int) :
    (scientificNumeral negative digits leading).WellFormed := by
  obtain ⟨c, tail, rfl⟩ := List.exists_cons_of_ne_nil hne
  exact {
    whole_ne_nil := List.cons_ne_nil _ _
    whole_digits := hdigits.of_subset (List.take_subset _ _)
    zero_alone := fun _ => rfl
    fraction_digits := hdigits.of_subset (List.drop_subset _ _)
    exponent_digits := by
      intro _ _ h
      cases h
      exact ⟨digitsOf_ne_nil _, allDigits_digitsOf _⟩ }

theorem wellFormed_decimalNumeral (negative : Bool) {d : Decimal}
    (hd : d = ⟨0, 0⟩ ∨ d.digits ≠ 0) : (decimalNumeral negative d).WellFormed := by
  unfold decimalNumeral
  simp only
  split
  · refine wellFormed_positionalNumeral negative (digitsOf_ne_nil _) (allDigits_digitsOf _) ?_
    intro hhead
    rw [eq_zero_of_head?_digitsOf hd hhead]
    rfl
  · exact wellFormed_scientificNumeral negative (digitsOf_ne_nil _) (allDigits_digitsOf _) _

/-- The numeral of every number can be read. -/
theorem Number.wellFormed_numeral (n : Number) : n.numeral.WellFormed := by
  cases n with
  | integer n =>
    exact {
      whole_ne_nil := digitsOf_ne_nil _
      whole_digits := allDigits_digitsOf _
      zero_alone := by
        intro hhead
        have hzero : n.natAbs = 0 :=
          Decidable.byContradiction fun hne => head?_digitsOf hne hhead
        show (digitsOf n.natAbs).length = 1
        rw [hzero]
        rfl
      fraction_digits := fun _ hc => nomatch hc
      exponent_digits := fun _ _ h => nomatch h }
  | float x => exact wellFormed_decimalNumeral _ (shortest_eq_or_digits_ne_zero x)

/-! ### The value of the numeral of an integer -/

/-- Digits extend a significand one after the other. -/
theorem significand_append {n m : Nat} {digits rest : List Char}
    (h : significand n digits = (m, [])) :
    significand n (digits ++ rest) = significand m rest := by
  induction digits generalizing n with
  | nil =>
    cases h
    rfl
  | cons c digits ih =>
    rw [List.cons_append, significand]
    rw [significand] at h
    split at h
    · rename_i hfits
      rw [if_pos hfits]
      exact ih h
    · cases h

/-- The digits of a natural number that fits into 64 bits are all taken, and give it back. -/
theorem significand_digitsOf {n : Nat} (h : n < Text.wordBound) :
    significand 0 (digitsOf n) = (n, []) := by
  have hdigit : ∀ d < 10, (Nat.digitChar d).toNat - '0'.toNat = d := by decide
  induction n using Nat.strongRecOn with
  | ind n ih =>
    by_cases hn : n < 10
    · rw [digitsOf_of_lt_ten hn, significand]
      simp only [hdigit n hn, Nat.mul_zero, Nat.zero_add, if_pos h, significand]
    · -- all digits but the last are those of the tenth
      have hn := Nat.le_of_not_lt hn
      have htenth := ih (n / 10) (by omega) (by omega)
      have hsum : 10 * (n / 10) + n % 10 = n := Nat.div_add_mod n 10
      rw [digitsOf_of_ten_le hn, significand_append htenth, significand]
      simp only [hdigit (n % 10) (Nat.mod_lt n (by decide)), hsum, if_pos h, significand]

/-- A natural number that fits into 64 bits is read as it was written. -/
theorem value?_numeral_ofNat {n : Nat} (h : n < Text.wordBound) :
    (Number.integer n).numeral.value? = some (.integer n) := by
  have hsign : ¬ (n : Int) < 0 := by omega
  show Numeral.value? ⟨decide ((n : Int) < 0), digitsOf n, [], none⟩ = _
  unfold Numeral.value?
  simp only [significand_digitsOf h, decide_eq_false hsign]
  rfl

end TradingRules.Json
