/-
# Different values have different texts

The numeral that a number is written as has the value of its decimal, and shows whether the number
is an integer. So numbers with one numeral are the same. As the text of a value is built into a tree
with the numerals of its numbers, however deep it nests, values with one text are the same too.
-/
import Mathlib
import TradingRules.Proofs.Decimal.Value
import TradingRules.Proofs.Json.Tree

namespace TradingRules.Json

open TradingRules.Decimal
open TradingRules.Text (digitsValue)

/-! ## The value of a numeral -/

/-- The number that a written exponent stands for. -/
def exponentValue : Option (Bool × List Char) → Int
  | none => 0
  | some (negative, digits) => if negative then -digitsValue digits else digitsValue digits

/-- The number that a numeral without its sign stands for, before any rounding. -/
def Numeral.exactValue (n : Numeral) : ℚ :=
  digitsValue (n.whole ++ n.fraction) * 10 ^ (exponentValue n.exponent - n.fraction.length)

theorem digitsValue_eq (digits : List Char) : digitsValue digits = Nat.ofDigitChars 10 digits 0 :=
  Nat.ofDigitChars_eq_foldl.symm

theorem digitsValue_digitsOf (n : Nat) : digitsValue (digitsOf n) = n := by
  rw [digitsValue_eq]
  exact Nat.ofDigitChars_ten_toDigits

/-- Zeros in front of digits do not count. -/
theorem digitsValue_zeros_append (n : Nat) (digits : List Char) :
    digitsValue (List.replicate n '0' ++ digits) = digitsValue digits := by
  rw [digitsValue_eq, digitsValue_eq, Nat.ofDigitChars_append, Nat.ofDigitChars_replicate_zero,
    Nat.mul_zero]

/-- Each zero behind digits multiplies them by ten. -/
theorem digitsValue_append_zeros (digits : List Char) (n : Nat) :
    digitsValue (digits ++ List.replicate n '0') = digitsValue digits * 10 ^ n := by
  rw [digitsValue_eq, digitsValue_eq, Nat.ofDigitChars_append, Nat.ofDigitChars_replicate_zero,
    Nat.mul_comm]

/-- A written exponent has the value that was written. -/
theorem exponentValue_digitsOf (e : Int) :
    exponentValue (some (decide (e < 0), digitsOf e.natAbs)) = e := by
  rw [exponentValue, digitsValue_digitsOf]
  by_cases he : e < 0
  · rw [decide_eq_true he, if_pos rfl]
    omega
  · rw [decide_eq_false he, if_neg Bool.false_ne_true]
    omega

/-- In exponent form the leading digit stands for the power of ten that it should. -/
theorem exactValue_scientificNumeral (negative : Bool) {digits : List Char} (hne : digits ≠ [])
    (leading : Int) : (scientificNumeral negative digits leading).exactValue =
      digitsValue digits * 10 ^ (leading + 1 - digits.length) := by
  have hlength : 0 < digits.length := List.length_pos_iff.mpr hne
  unfold scientificNumeral Numeral.exactValue
  simp only [List.take_append_drop, exponentValue_digitsOf, List.length_drop]
  congr 2
  omega

/-- With a decimal point the leading digit stands for the power of ten that it should. -/
theorem exactValue_positionalNumeral (negative : Bool) {digits : List Char} (hne : digits ≠ [])
    (leading : Int) : (positionalNumeral negative digits leading).exactValue =
      digitsValue digits * 10 ^ (leading + 1 - digits.length) := by
  have hlength : 0 < digits.length := List.length_pos_iff.mpr hne
  unfold positionalNumeral Numeral.exactValue
  by_cases hleading : leading < 0
  · -- zeros stand in front of the digits
    have hzeros : ['0'] ++ (List.replicate (-leading - 1).toNat '0' ++ digits) =
        List.replicate ((-leading - 1).toNat + 1) '0' ++ digits := rfl
    simp only [if_pos hleading, hzeros, digitsValue_zeros_append, exponentValue,
      List.length_append, List.length_replicate]
    congr 2
    omega
  · simp only [if_neg hleading, exponentValue]
    by_cases hlong : digits.length ≤ leading.toNat + 1
    · -- zeros stand behind the digits, and one more behind the point
      have hzeros : digits ++ List.replicate (leading.toNat + 1 - digits.length) '0' ++ ['0'] =
          digits ++ List.replicate (leading.toNat + 1 - digits.length + 1) '0' := by
        rw [List.replicate_succ', List.append_assoc]
      have hexponent : (leading + 1 - digits.length) =
          ((leading.toNat + 1 - digits.length + 1 : Nat) : Int) + (0 - (1 : Nat)) := by
        omega
      rw [List.take_of_length_le hlong, List.drop_of_length_le hlong, List.isEmpty_nil, if_pos rfl,
        hzeros, digitsValue_append_zeros, List.length_singleton, hexponent, zpow_add₀ (by norm_num), zpow_natCast]
      push_cast
      ring
    · -- the point stands between the digits
      have hfraction : (digits.drop (leading.toNat + 1)).isEmpty = false := by
        rw [List.isEmpty_eq_false_iff, ← List.length_pos_iff, List.length_drop]
        omega
      have hnone : leading.toNat + 1 - digits.length = 0 := by omega
      rw [hfraction, if_neg Bool.false_ne_true, hnone, List.replicate_zero, List.append_nil,
        List.take_append_drop, List.length_drop]
      congr 2
      omega

/-- The numeral of a decimal has its value. -/
theorem exactValue_decimalNumeral (negative : Bool) (d : Decimal) :
    (decimalNumeral negative d).exactValue = d.value := by
  have hne : digitsOf d.digits ≠ [] := digitsOf_ne_nil d.digits
  have hexponent : d.exponent + (digitsOf d.digits).length - 1 + 1 - (digitsOf d.digits).length =
      d.exponent := by
    omega
  unfold decimalNumeral
  simp only
  split
  · rw [exactValue_positionalNumeral _ hne, digitsValue_digitsOf, hexponent, Decimal.value]
  · rw [exactValue_scientificNumeral _ hne, digitsValue_digitsOf, hexponent, Decimal.value]

/-! ## Numerals -/

/-- A numeral is that of an integer: it has neither a fraction nor an exponent. -/
def Numeral.isWhole (n : Numeral) : Bool :=
  n.fraction.isEmpty && n.exponent.isNone

/-- Behind a decimal point there are digits. -/
theorem isWhole_positionalNumeral (negative : Bool) {digits : List Char} (hne : digits ≠ [])
    (leading : Int) : (positionalNumeral negative digits leading).isWhole = false := by
  have hempty : ∀ n : Numeral, n.fraction ≠ [] → n.isWhole = false := by
    intro n hn
    rw [Numeral.isWhole, List.isEmpty_eq_false_iff.mpr hn, Bool.false_and]
  apply hempty
  unfold positionalNumeral
  split
  · exact List.append_ne_nil_of_right_ne_nil _ hne
  · simp only
    split
    · exact List.cons_ne_nil _ _
    · rename_i hfraction
      exact fun hnil => hfraction (List.isEmpty_iff.mpr hnil)

/-- A decimal is written with a fraction or with an exponent. -/
theorem isWhole_decimalNumeral (negative : Bool) (d : Decimal) :
    (decimalNumeral negative d).isWhole = false := by
  unfold decimalNumeral
  simp only
  split
  · exact isWhole_positionalNumeral negative (digitsOf_ne_nil d.digits) _
  · exact Bool.and_false _

theorem negative_decimalNumeral (negative : Bool) (d : Decimal) :
    (decimalNumeral negative d).negative = negative := by
  unfold decimalNumeral positionalNumeral
  simp only
  split
  · split <;> rfl
  · rfl

/-- Numbers with one numeral are the same. -/
theorem Number.numeral_injective : Function.Injective Number.numeral := by
  intro n m h
  cases n with
  | integer n =>
    cases m with
    | integer m =>
      have hsign : decide (n < 0) = decide (m < 0) := congrArg Numeral.negative h
      have hdigits : n.natAbs = m.natAbs := by
        rw [← digitsValue_digitsOf n.natAbs, ← digitsValue_digitsOf m.natAbs]
        exact congrArg (fun numeral => digitsValue numeral.whole) h
      rw [decide_eq_decide] at hsign
      congr 1
      omega
    | float y =>
      have hwhole : true = false :=
        (congrArg Numeral.isWhole h).trans (isWhole_decimalNumeral _ (shortest y))
      cases hwhole
  | float x =>
    cases m with
    | integer m =>
      have hwhole : true = false :=
        (congrArg Numeral.isWhole h.symm).trans (isWhole_decimalNumeral _ (shortest x))
      cases hwhole
    | float y =>
      have hsign := congrArg Numeral.negative h
      have hvalue := congrArg Numeral.exactValue h
      simp only [Number.numeral, negative_decimalNumeral, exactValue_decimalNumeral] at hsign hvalue
      rw [decide_eq_decide, not_iff_not] at hsign
      rw [eq_of_magnitude_eq hsign (magnitude_eq_of_value_shortest_eq hvalue)]

/-- **The text of a number identifies it.** -/
theorem Number.text_injective : Function.Injective Number.text := by
  intro n m h
  have hread : ∀ n : Number, scanNumeral n.text = .ok (n.numeral, []) := by
    intro n
    rw [← n.text_numeral, ← List.append_nil n.numeral.text]
    exact scanNumeral_text_append n.wellFormed_numeral EndsNumeral.nil
  have hboth := hread n
  rw [h, hread m] at hboth
  have hnumeral : m.numeral = n.numeral := (Prod.mk.inj (Except.ok.inj hboth)).1
  exact (numeral_injective hnumeral).symm

/-! ## Values -/

mutual

/-- Values with one tree are the same. -/
theorem eq_of_tree_eq {j j' : Json} (h : j.tree = j'.tree) : j = j' := by
  match j, j' with
  | .null, .null => rfl
  | .bool _, .bool _ =>
    cases h
    rfl
  | .number n, .number n' =>
    have hnumeral : n.numeral = n'.numeral := Tree.number.inj h
    rw [Number.numeral_injective hnumeral]
  | .string _, .string _ =>
    cases h
    rfl
  | .array items, .array items' =>
    have hitems : itemTrees items = itemTrees items' := (Tree.array.inj h).1
    rw [eq_of_itemTrees_eq hitems]
  | .object members, .object members' =>
    have hmembers : memberTrees members = memberTrees members' := (Tree.object.inj h).1
    rw [eq_of_memberTrees_eq hmembers]
termination_by structural j

/-- Items with the same trees are the same. -/
theorem eq_of_itemTrees_eq {items items' : List Json} (h : itemTrees items = itemTrees items') :
    items = items' := by
  match items, items' with
  | [], [] => rfl
  | item :: rest, item' :: rest' =>
    obtain ⟨hitem, hrest⟩ := List.cons.inj h
    rw [eq_of_tree_eq hitem, eq_of_itemTrees_eq hrest]
termination_by structural items

/-- Members with the same names and trees are the same. -/
theorem eq_of_memberTrees_eq {members members' : List (String × Json)}
    (h : memberTrees members = memberTrees members') : members = members' := by
  match members, members' with
  | [], [] => rfl
  | (name, value) :: rest, (name', value') :: rest' =>
    obtain ⟨hmember, hrest⟩ := List.cons.inj h
    obtain ⟨hname, hvalue⟩ := Prod.mk.inj hmember
    rw [Option.some.inj hname, eq_of_tree_eq hvalue, eq_of_memberTrees_eq hrest]
termination_by structural members

end

/-- **The pretty text of a value identifies it**, however deep the value nests. -/
theorem pretty_injective : Function.Injective pretty := by
  intro j j' h
  have hdocument : document j.pretty.toList = document j'.pretty.toList := by rw [h]
  rw [document_pretty, document_pretty] at hdocument
  exact eq_of_tree_eq (congrArg Document.root hdocument)

end TradingRules.Json
