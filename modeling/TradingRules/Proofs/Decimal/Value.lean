/-
# Decimals identify numbers

The bits of a number without its sign count the numbers of double precision in their order. The
interval of each ends where that of the next one begins, and only the even ones hold their ends, so no
decimal lies in two of them. The decimal that is chosen for a number lies in its interval; so two
numbers with decimals of one value are the same but for their signs.
-/
import Mathlib
import TradingRules.Proofs.Decimal.Digits

namespace TradingRules.Decimal

/-! ## The value of a decimal -/

/-- The number that a decimal stands for. -/
def value (d : Decimal) : ℚ :=
  d.digits * 10 ^ d.exponent

/-- A power with an integer exponent, as a quotient of powers with natural ones. -/
theorem zpow_mul_pow_toNat {base : ℚ} (hbase : base ≠ 0) (e : Int) :
    base ^ e * base ^ (-e).toNat = base ^ e.toNat := by
  rw [← zpow_natCast, ← zpow_natCast, ← zpow_add₀ hbase]
  congr 1
  omega

/-- The value of a decimal, multiplied by its own denominator and another one. -/
theorem value_mul_denominators (d : Decimal) (denominator : Nat) :
    d.value * denominator * 10 ^ (-d.exponent).toNat =
      d.digits * 10 ^ d.exponent.toNat * denominator := by
  rw [value, ← zpow_mul_pow_toNat (by norm_num) d.exponent]
  ring

/-- A fraction is compared to a decimal after both are multiplied by their denominators. -/
theorem div_le_value_iff (numerator : Nat) {denominator : Nat} (hpos : 0 < denominator)
    (d : Decimal) : (numerator : ℚ) / denominator ≤ d.value ↔
      numerator * powerOfTen (-d.exponent).toNat ≤
        d.digits * powerOfTen d.exponent.toNat * denominator := by
  have hdenominator : (0 : ℚ) < denominator := Nat.cast_pos.mpr hpos
  have hunit : (0 : ℚ) < 10 ^ (-d.exponent).toNat := by positivity
  rw [div_le_iff₀ hdenominator, ← mul_le_mul_iff_left₀ hunit, value_mul_denominators]
  exact_mod_cast Iff.rfl

/-- A decimal is compared to a fraction in the same way. -/
theorem value_le_div_iff (numerator : Nat) {denominator : Nat} (hpos : 0 < denominator)
    (d : Decimal) : d.value ≤ (numerator : ℚ) / denominator ↔
      d.digits * powerOfTen d.exponent.toNat * denominator ≤
        numerator * powerOfTen (-d.exponent).toNat := by
  have hdenominator : (0 : ℚ) < denominator := Nat.cast_pos.mpr hpos
  have hunit : (0 : ℚ) < 10 ^ (-d.exponent).toNat := by positivity
  rw [le_div_iff₀ hdenominator, ← mul_le_mul_iff_left₀ hunit, value_mul_denominators]
  exact_mod_cast Iff.rfl

/-- Moving zeros into the exponent keeps the value. -/
theorem value_stripZeros (d : Decimal) (steps : Nat) : (d.stripZeros steps).value = d.value := by
  induction steps generalizing d with
  | zero => rfl
  | succ steps ih =>
    rw [stripZeros]
    split
    · rename_i hzero
      have hdigits : d.digits = d.digits / 10 * 10 := by omega
      have hcast : (d.digits : ℚ) = (d.digits / 10 : Nat) * 10 := by exact_mod_cast hdigits
      rw [ih, value, value, hcast, zpow_add_one₀ (by norm_num)]
      ring
    · rfl

/-- A fraction is the value of a decimal with enough places for its denominator. -/
theorem value_of_dvd {numerator denominator places : Nat}
    (hdvd : denominator ∣ numerator * powerOfTen places) (hpos : 0 < denominator) :
    value ⟨numerator * powerOfTen places / denominator, -places⟩ = numerator / denominator := by
  have hdenominator : (denominator : ℚ) ≠ 0 := Nat.cast_ne_zero.mpr hpos.ne'
  have hten : ((powerOfTen places : Nat) : ℚ) = 10 ^ places := Nat.cast_pow 10 places
  rw [value, Nat.cast_div hdvd hdenominator, Nat.cast_mul, hten, zpow_neg, zpow_natCast]
  field_simp

/-! ## Intervals -/

namespace Interval

/-- Where an interval begins. -/
def start (i : Interval) : ℚ := i.low / i.denominator

/-- Where an interval ends. -/
def stop (i : Interval) : ℚ := i.high / i.denominator

/-- A number lies in an interval. -/
structure Contains (i : Interval) (x : ℚ) : Prop where
  start_le : i.start ≤ x
  le_stop : x ≤ i.stop
  inside : i.closed = false → i.start < x ∧ x < i.stop

/-- A decimal that is held by an interval lies in it. -/
theorem contains_of_holds {i : Interval} (hpos : 0 < i.denominator) {d : Decimal}
    (h : i.holds d = true) : i.Contains d.value := by
  unfold holds at h
  simp only at h
  split at h
  · rename_i hclosed
    rw [Bool.and_eq_true, decide_eq_true_eq, decide_eq_true_eq] at h
    have hstart : i.start ≤ d.value := (div_le_value_iff i.low hpos d).mpr h.1
    have hstop : d.value ≤ i.stop := (value_le_div_iff i.high hpos d).mpr h.2
    refine ⟨hstart, hstop, ?_⟩
    intro hopen
    rw [hclosed] at hopen
    cases hopen
  · rw [Bool.and_eq_true, decide_eq_true_eq, decide_eq_true_eq] at h
    have hstart : i.start < d.value :=
      not_le.mp fun hle => Nat.not_lt.mpr ((value_le_div_iff i.low hpos d).mp hle) h.1
    have hstop : d.value < i.stop :=
      not_le.mp fun hle => Nat.not_lt.mpr ((div_le_value_iff i.high hpos d).mp hle) h.2
    exact ⟨hstart.le, hstop.le, fun _ => ⟨hstart, hstop⟩⟩

theorem IsPositive.start_lt_value {i : Interval} (h : i.IsPositive) :
    i.start < i.value / i.denominator :=
  div_lt_div_of_pos_right (Nat.cast_lt.mpr h.low_lt_value) (Nat.cast_pos.mpr h.denominator_pos)

theorem IsPositive.value_lt_stop {i : Interval} (h : i.IsPositive) :
    i.value / i.denominator < i.stop :=
  div_lt_div_of_pos_right (Nat.cast_lt.mpr h.value_lt_high) (Nat.cast_pos.mpr h.denominator_pos)

/-- The decimal that is chosen lies in the interval. -/
theorem IsPositive.contains_shortest {i : Interval} (h : i.IsPositive) :
    i.Contains i.shortest.value := by
  unfold shortest
  simp only
  split
  · rename_i d hd
    obtain ⟨n, -, hgrid⟩ := List.exists_of_findSome?_eq_some hd
    rw [value_stripZeros]
    exact contains_of_holds h.denominator_pos (holds_of_onGrid hgrid)
  · -- the last alternative gives the value itself
    have hdvd : i.denominator ∣ i.value * powerOfTen 1100 := h.denominator_dvd.mul_left _
    have hvalue : Decimal.value ⟨i.value * powerOfTen 1100 / i.denominator, -1100⟩ =
        i.value / i.denominator := value_of_dvd hdvd h.denominator_pos
    have hstart := h.start_lt_value
    have hstop := h.value_lt_stop
    rw [hvalue]
    exact ⟨hstart.le, hstop.le, fun _ => ⟨hstart, hstop⟩⟩

/-! ### Consecutive numbers -/

/-- The interval of the number with the given biased exponent and fraction. -/
def ofFields (biased fraction : Nat) : Interval :=
  if biased = 0 then Interval.of fraction (-1074) false
  else Interval.of (2 ^ 52 + fraction) (biased - 1075) (fraction == 0 && biased > 1)

/-- The interval of the number with the given magnitude, its bits without the sign. -/
def ofMagnitude (n : Nat) : Interval :=
  ofFields (n / 2 ^ 52) (n % 2 ^ 52)

theorem ofBits_eq {bits : UInt64} (h : bits.toNat < 2 ^ 63) :
    ofBits bits = ofMagnitude bits.toNat := by
  have hmasked : ((bits >>> 52) &&& 0x7FF).toNat = bits.toNat / 2 ^ 52 % 2 ^ 11 :=
    toNat_biased bits
  have hbiased : ((bits >>> 52) &&& 0x7FF).toNat = bits.toNat / 2 ^ 52 := by omega
  have hfraction : (bits &&& 0xFFFFFFFFFFFFF).toNat = bits.toNat % 2 ^ 52 := toNat_fraction bits
  unfold ofBits
  simp only [hbiased, hfraction]
  rfl

/-- Quarters of a power of two, as they stand over the denominator of an interval. -/
theorem quarters_eq (quarters : Nat) (exponent : Int) :
    ((quarters * powerOfTwo exponent.toNat : Nat) : ℚ) /
        (4 * powerOfTwo (-exponent).toNat : Nat) = quarters / 4 * 2 ^ exponent := by
  have htwo : ∀ n, ((powerOfTwo n : Nat) : ℚ) = 2 ^ n := fun n => Nat.cast_pow 2 n
  have hpos : (0 : ℚ) < 2 ^ (-exponent).toNat := by positivity
  rw [Nat.cast_mul, Nat.cast_mul, htwo, htwo, ← zpow_mul_pow_toNat two_ne_zero exponent]
  push_cast
  field_simp

/-- Where the interval of a significand begins. -/
theorem start_of {significand : Nat} (exponent : Int) (narrowBelow : Bool)
    (hsignificand : 0 < significand) :
    (Interval.of significand exponent narrowBelow).start =
      (significand - if narrowBelow then 1 / 4 else 1 / 2) * 2 ^ exponent := by
  refine (quarters_eq _ exponent).trans ?_
  cases narrowBelow with
  | true =>
    rw [if_pos rfl, if_pos rfl, Nat.cast_sub (by omega)]
    push_cast
    ring
  | false =>
    rw [if_neg Bool.false_ne_true, if_neg Bool.false_ne_true, Nat.cast_sub (by omega)]
    push_cast
    ring

/-- Where the interval of a significand ends. -/
theorem stop_of (significand : Nat) (exponent : Int) (narrowBelow : Bool) :
    (Interval.of significand exponent narrowBelow).stop =
      (significand + 1 / 2) * 2 ^ exponent := by
  refine (quarters_eq _ exponent).trans ?_
  push_cast
  ring

/-- Where the interval of a number ends the one with the next fraction begins. -/
theorem start_ofFields_succ (biased fraction : Nat) :
    (ofFields biased (fraction + 1)).start = (ofFields biased fraction).stop := by
  unfold ofFields
  cases biased with
  | zero =>
    rw [if_pos rfl, if_pos rfl, start_of _ _ (Nat.succ_pos _), stop_of, if_neg Bool.false_ne_true]
    generalize (2 : ℚ) ^ (-1074 : Int) = unit
    push_cast
    ring
  | succ biased =>
    have hwide : (fraction + 1 == 0 && decide (biased + 1 > 1)) = false := rfl
    rw [if_neg (Nat.succ_ne_zero _), if_neg (Nat.succ_ne_zero _), hwide,
      start_of _ _ (Nat.add_pos_left (by decide) _), stop_of, if_neg Bool.false_ne_true]
    push_cast
    ring

/-- Where the interval of the number with the last fraction ends the one with the next exponent
begins. -/
theorem start_ofFields_next (biased : Nat) :
    (ofFields (biased + 1) 0).start = (ofFields biased (2 ^ 52 - 1)).stop := by
  unfold ofFields
  rw [if_neg (Nat.succ_ne_zero _), start_of _ _ (Nat.add_pos_left (by decide) _)]
  cases biased with
  | zero =>
    -- the numbers with a biased exponent of zero and of one lie equally close
    rw [if_pos rfl, stop_of, if_neg (by decide)]
    norm_num
  | succ biased =>
    -- twice as close as those that follow
    have hexponent : (((biased + 1 + 1 : Nat) : Int) - 1075) = ((biased + 1 : Nat) - 1075) + 1 := by
      push_cast
      ring
    rw [if_neg (Nat.succ_ne_zero _), stop_of, if_pos (by simp), hexponent,
      zpow_add_one₀ two_ne_zero]
    norm_num
    ring

/-- The interval of each number ends where that of the next one begins. -/
theorem start_ofMagnitude_succ (n : Nat) :
    (ofMagnitude (n + 1)).start = (ofMagnitude n).stop := by
  unfold ofMagnitude
  by_cases hlast : n % 2 ^ 52 = 2 ^ 52 - 1
  · have hbiased : (n + 1) / 2 ^ 52 = n / 2 ^ 52 + 1 := by omega
    have hfraction : (n + 1) % 2 ^ 52 = 0 := by omega
    rw [hbiased, hfraction, hlast, start_ofFields_next]
  · have hbiased : (n + 1) / 2 ^ 52 = n / 2 ^ 52 := by omega
    have hfraction : (n + 1) % 2 ^ 52 = n % 2 ^ 52 + 1 := by omega
    rw [hbiased, hfraction, start_ofFields_succ]

/-- The interval of a number that is not zero is around its value. -/
theorem isPositive_ofMagnitude {n : Nat} (h : n ≠ 0) : (ofMagnitude n).IsPositive := by
  unfold ofMagnitude ofFields
  split
  · exact .of _ (by omega) (Int.le_refl _)
  · exact .of _ (Nat.add_pos_left (by decide) _) (by omega)

/-- Each interval ends behind the one before it. -/
theorem strictMono_stop : StrictMono fun n => (ofMagnitude n).stop := by
  refine strictMono_nat_of_lt_succ fun n => ?_
  have hpositive : (ofMagnitude (n + 1)).IsPositive := isPositive_ofMagnitude (Nat.succ_ne_zero n)
  calc (ofMagnitude n).stop
      = (ofMagnitude (n + 1)).start := (start_ofMagnitude_succ n).symm
    _ < (ofMagnitude (n + 1)).stop := hpositive.start_lt_value.trans hpositive.value_lt_stop

/-- An interval holds its ends exactly if its number is even. -/
theorem closed_ofMagnitude (n : Nat) : (ofMagnitude n).closed = (n % 2 == 0) := by
  unfold ofMagnitude ofFields
  split
  · show (n % 2 ^ 52 % 2 == 0) = _
    congr 1
    omega
  · show ((2 ^ 52 + n % 2 ^ 52) % 2 == 0) = _
    congr 1
    omega

/-- No number lies in two intervals. -/
theorem eq_of_contains {m n : Nat} {x : ℚ} (hm : (ofMagnitude m).Contains x)
    (hn : (ofMagnitude n).Contains x) : m = n := by
  wlog hlt : m < n generalizing m n
  · rcases Nat.lt_or_eq_of_le (Nat.le_of_not_lt hlt) with hgt | heq
    · exact (this hn hm hgt).symm
    · exact heq.symm
  exfalso
  obtain ⟨k, rfl⟩ := Nat.exists_eq_add_one_of_ne_zero (Nat.ne_zero_of_lt hlt)
  have hstops : (ofMagnitude m).stop ≤ (ofMagnitude k).stop :=
    strictMono_stop.monotone (Nat.le_of_lt_succ hlt)
  have hbelow : (ofMagnitude k).stop ≤ x := by
    rw [← start_ofMagnitude_succ]
    exact hn.start_le
  have hend : (ofMagnitude m).stop = (ofMagnitude k).stop :=
    le_antisymm hstops (hbelow.trans hm.le_stop)
  have hmk : m = k := strictMono_stop.injective hend
  subst hmk
  -- the number is the common end, and two intervals in a row do not both hold it
  have hx : x = (ofMagnitude m).stop := le_antisymm hm.le_stop hbelow
  have hclosed : (ofMagnitude m).closed = true := by
    by_contra hopen
    exact absurd hx (hm.inside (Bool.eq_false_of_not_eq_true hopen)).2.ne
  have hclosed' : (ofMagnitude (m + 1)).closed = true := by
    by_contra hopen
    rw [← start_ofMagnitude_succ] at hx
    exact absurd hx (hn.inside (Bool.eq_false_of_not_eq_true hopen)).1.ne'
  rw [closed_ofMagnitude, beq_iff_eq] at hclosed hclosed'
  omega

/-- Intervals lie in the order of the numbers in them. -/
theorem le_of_contains {m n : Nat} {x y : ℚ} (hm : (ofMagnitude m).Contains x)
    (hn : (ofMagnitude n).Contains y) (hle : x ≤ y) : m ≤ n := by
  by_contra hlt
  obtain ⟨k, rfl⟩ := Nat.exists_eq_add_one_of_ne_zero (Nat.ne_zero_of_lt (Nat.not_le.mp hlt))
  have hstops : (ofMagnitude n).stop ≤ (ofMagnitude k).stop :=
    strictMono_stop.monotone (by omega)
  have hstart := hm.start_le
  rw [start_ofMagnitude_succ] at hstart
  -- there is no room between the intervals, so the two numbers are the same
  have hsame : x = y := le_antisymm hle (hn.le_stop.trans (hstops.trans hstart))
  subst hsame
  exact hlt (eq_of_contains hm hn).le

end Interval

/-! ## Numbers of double precision -/

/-- The bits of a number without its sign. -/
def magnitude (x : Float) : Nat :=
  x.toBits.toNat % 2 ^ 63

/-- The decimal of a number lies in the interval of its magnitude. -/
theorem contains_shortest (x : Float) :
    (Interval.ofMagnitude (magnitude x)).Contains (shortest x).value := by
  have hbits : (x.toBits &&& 0x7FFFFFFFFFFFFFFF).toNat = magnitude x := toNat_magnitude x.toBits
  have hlt : magnitude x < 2 ^ 63 := Nat.mod_lt _ (by decide)
  unfold shortest
  simp only
  split
  · rename_i hzero
    have hholds : (Interval.ofMagnitude 0).holds ⟨0, 0⟩ = true := by decide +kernel
    rw [← hbits, hzero]
    exact Interval.contains_of_holds (by decide +kernel) hholds
  · rename_i hnonzero
    have hne : magnitude x ≠ 0 := by
      rw [← hbits]
      exact fun h => hnonzero (UInt64.toNat_inj.mp h)
    rw [Interval.ofBits_eq (hbits ▸ hlt), hbits]
    exact (Interval.isPositive_ofMagnitude hne).contains_shortest

/-- Numbers whose decimals have one value have one magnitude. -/
theorem magnitude_eq_of_value_shortest_eq {x y : Float}
    (h : (shortest x).value = (shortest y).value) : magnitude x = magnitude y := by
  have hy := contains_shortest y
  rw [← h] at hy
  exact Interval.eq_of_contains (contains_shortest x) hy

/-- A number is determined by its sign and its magnitude. -/
theorem eq_of_magnitude_eq {x y : Float} (hsign : x.toBits >>> 63 = 0 ↔ y.toBits >>> 63 = 0)
    (hmagnitude : magnitude x = magnitude y) : x = y := by
  have hclear : ∀ bits : UInt64, bits >>> 63 = 0 ↔ bits.toNat / 2 ^ 63 = 0 := by
    intro bits
    rw [← UInt64.toNat_inj, UInt64.toNat_shiftRight, Nat.shiftRight_eq_div_pow]
    rfl
  rw [hclear, hclear] at hsign
  unfold magnitude at hmagnitude
  have hx := x.toBits.toNat_lt
  have hy := y.toBits.toNat_lt
  apply Float.toBits_inj.mp
  apply UInt64.toNat_inj.mp
  omega

end TradingRules.Decimal
