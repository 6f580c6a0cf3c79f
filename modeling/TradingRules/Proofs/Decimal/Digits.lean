/-
# The digits that are written

A natural number is written with at least one digit, and without a zero in front unless it is zero.
The digits chosen for a number of double precision are those of zero for the two zeros only: every
decimal in the interval of another number is positive.
-/
import TradingRules.Decimal.Notation

namespace TradingRules.Decimal

/-! ## Natural numbers -/

/-- Digits are what a natural number is written with. -/
theorem isDigit_of_mem_digitsOf {n : Nat} {c : Char} (h : c ∈ digitsOf n) : c.isDigit = true :=
  Nat.isDigit_of_mem_toDigits (by decide) (by decide) h

theorem digitsOf_ne_nil (n : Nat) : digitsOf n ≠ [] :=
  Nat.toDigits_ne_nil

/-- A number of several digits is written as its tenth and its last digit. -/
theorem digitsOf_of_ten_le {n : Nat} (h : 10 ≤ n) :
    digitsOf n = digitsOf (n / 10) ++ [Nat.digitChar (n % 10)] :=
  Nat.toDigits_of_base_le (by decide) h

/-- A number of one digit is written as it. -/
theorem digitsOf_of_lt_ten {n : Nat} (h : n < 10) : digitsOf n = [Nat.digitChar n] :=
  Nat.toDigits_of_lt_base h

/-- Only zero is written with a zero in front. -/
theorem head?_digitsOf {n : Nat} (h : n ≠ 0) : (digitsOf n).head? ≠ some '0' := by
  induction n using Nat.strongRecOn with
  | ind n ih =>
    by_cases hn : n < 10
    · have hdigit : ∀ m < 10, m ≠ 0 → [Nat.digitChar m].head? ≠ some '0' := by decide
      rw [digitsOf_of_lt_ten hn]
      exact hdigit n hn h
    · have htenth := ih (n / 10) (by omega) (by omega)
      obtain ⟨c, rest, hdigits⟩ := List.exists_cons_of_ne_nil (digitsOf_ne_nil (n / 10))
      rw [hdigits] at htenth
      rw [digitsOf_of_ten_le (Nat.le_of_not_lt hn), hdigits]
      exact htenth

/-! ## Numbers of double precision -/

theorem powerOfTwo_pos (n : Nat) : 0 < powerOfTwo n :=
  Nat.pow_pos (by decide)

theorem powerOfTen_pos (n : Nat) : 0 < powerOfTen n :=
  Nat.pow_pos (by decide)

/-- Four times a power of two divides every power of ten whose exponent is greater by two. -/
theorem four_mul_powerOfTwo_dvd {n places : Nat} (h : n + 2 ≤ places) :
    4 * powerOfTwo n ∣ powerOfTen places := by
  have hfour : 4 * powerOfTwo n = 2 ^ (n + 2) := by
    rw [Nat.pow_add, Nat.mul_comm]
    rfl
  have hten : powerOfTen places = 2 ^ places * 5 ^ places := Nat.mul_pow 2 5 places
  rw [hfour, hten]
  exact Nat.dvd_mul_right_of_dvd (Nat.pow_dvd_pow 2 h) _

/-- An interval of a positive number: it begins above zero and lies around the value, which 1100
places give exactly. -/
structure Interval.IsPositive (i : Interval) : Prop where
  low_pos : 0 < i.low
  low_lt_value : i.low < i.value
  value_lt_high : i.value < i.high
  denominator_pos : 0 < i.denominator
  denominator_dvd : i.denominator ∣ powerOfTen 1100

/-- The interval of a number with a significand. -/
theorem Interval.IsPositive.of {significand : Nat} {exponent : Int} (narrowBelow : Bool)
    (hsignificand : 0 < significand) (hexponent : -1074 ≤ exponent) :
    (Interval.of significand exponent narrowBelow).IsPositive where
  low_pos := by
    refine Nat.mul_pos ?_ (powerOfTwo_pos _)
    split <;> omega
  low_lt_value := by
    refine Nat.mul_lt_mul_of_pos_right ?_ (powerOfTwo_pos _)
    split <;> omega
  value_lt_high := Nat.mul_lt_mul_of_pos_right (by omega) (powerOfTwo_pos _)
  denominator_pos := Nat.mul_pos (by decide) (powerOfTwo_pos _)
  denominator_dvd := four_mul_powerOfTwo_dvd (by omega)

/-- The value does not vanish in 1100 places. -/
theorem Interval.IsPositive.denominator_le {i : Interval} (h : i.IsPositive) :
    i.denominator ≤ i.value * powerOfTen 1100 := by
  have hvalue : 0 < i.value := Nat.zero_lt_of_lt h.low_lt_value
  exact Nat.le_of_dvd (Nat.mul_pos hvalue (powerOfTen_pos _))
    (Nat.dvd_mul_left_of_dvd h.denominator_dvd _)

/-- The biased exponent of a number, from its bits. -/
theorem toNat_biased (bits : UInt64) :
    ((bits >>> 52) &&& 0x7FF).toNat = bits.toNat / powerOfTwo 52 % powerOfTwo 11 := by
  rw [UInt64.toNat_and, UInt64.toNat_shiftRight, Nat.shiftRight_eq_div_pow]
  exact Nat.and_two_pow_sub_one_eq_mod _ 11

/-- The fraction of a number, from its bits. -/
theorem toNat_fraction (bits : UInt64) :
    (bits &&& 0xFFFFFFFFFFFFF).toNat = bits.toNat % powerOfTwo 52 := by
  rw [UInt64.toNat_and]
  exact Nat.and_two_pow_sub_one_eq_mod _ 52

/-- The bits of a number without its sign. -/
theorem toNat_magnitude (bits : UInt64) :
    (bits &&& 0x7FFFFFFFFFFFFFFF).toNat = bits.toNat % powerOfTwo 63 := by
  rw [UInt64.toNat_and]
  exact Nat.and_two_pow_sub_one_eq_mod _ 63

/-- The interval of the bits of a number that is not zero. -/
theorem Interval.isPositive_ofBits {bits : UInt64} (hbits : bits ≠ 0)
    (hsign : bits.toNat < powerOfTwo 63) : (Interval.ofBits bits).IsPositive := by
  have hbiased : _ = bits.toNat / 2 ^ 52 % 2 ^ 11 := toNat_biased bits
  have hfraction : _ = bits.toNat % 2 ^ 52 := toNat_fraction bits
  have hne : bits.toNat ≠ 0 := fun h => hbits (UInt64.toNat_inj.mp h)
  have hbound : powerOfTwo 63 = 2 ^ 63 := rfl
  unfold Interval.ofBits
  simp only
  split
  · rename_i hzero
    refine .of false ?_ (Int.le_refl _)
    omega
  · rename_i hnonzero
    refine .of _ (Nat.add_pos_left (powerOfTwo_pos 52) _) ?_
    omega

/-- A decimal in the interval of a positive number is not zero. -/
theorem Interval.IsPositive.digits_ne_zero {i : Interval} (h : i.IsPositive) {d : Decimal}
    (hd : i.holds d = true) : d.digits ≠ 0 := by
  intro hzero
  have hlow : 0 < i.low * powerOfTen (-d.exponent).toNat :=
    Nat.mul_pos h.low_pos (powerOfTen_pos _)
  unfold Interval.holds at hd
  simp only [hzero, Nat.zero_mul] at hd
  split at hd
  · rw [Bool.and_eq_true, decide_eq_true_eq] at hd
    exact absurd hlow (Nat.not_lt.mpr hd.1)
  · rw [Bool.and_eq_true, decide_eq_true_eq] at hd
    exact absurd hd.1 (Nat.not_lt_zero _)

/-- A decimal found on a grid lies in the interval. -/
theorem Interval.holds_of_onGrid {i : Interval} {exponent : Int} {d : Decimal}
    (h : i.onGrid exponent = some d) : i.holds d = true := by
  unfold Interval.onGrid at h
  simp only at h
  split at h
  · cases h
  · cases h
    assumption
  · cases h
    assumption
  · split at h
    · cases h
      assumption
    · cases h
      assumption
    · split at h <;> cases h <;> assumption

/-- Moving zeros into the exponent leaves no zero digits behind. -/
theorem digits_stripZeros_ne_zero {d : Decimal} (h : d.digits ≠ 0) (steps : Nat) :
    (d.stripZeros steps).digits ≠ 0 := by
  induction steps generalizing d with
  | zero => exact h
  | succ steps ih =>
    rw [stripZeros]
    split
    · rename_i hzero
      refine ih ?_
      show d.digits / 10 ≠ 0
      omega
    · exact h

/-- The shortest decimal of a positive number is not zero. -/
theorem Interval.IsPositive.digits_shortest_ne_zero {i : Interval} (h : i.IsPositive) :
    i.shortest.digits ≠ 0 := by
  unfold Interval.shortest
  simp only
  split
  · rename_i d hd
    obtain ⟨n, -, hgrid⟩ := List.exists_of_findSome?_eq_some hd
    exact digits_stripZeros_ne_zero (h.digits_ne_zero (holds_of_onGrid hgrid)) 17
  · exact Nat.ne_of_gt (Nat.div_pos h.denominator_le h.denominator_pos)

/-- The decimal of a number is zero, without an exponent, or has digits. -/
theorem shortest_eq_or_digits_ne_zero (x : Float) :
    shortest x = ⟨0, 0⟩ ∨ (shortest x).digits ≠ 0 := by
  unfold shortest
  simp only
  split
  · exact Or.inl rfl
  · rename_i hbits
    refine Or.inr (Interval.isPositive_ofBits hbits ?_).digits_shortest_ne_zero
    rw [toNat_magnitude]
    exact Nat.mod_lt _ (by decide)

end TradingRules.Decimal
