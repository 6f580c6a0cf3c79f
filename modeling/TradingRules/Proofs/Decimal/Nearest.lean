/-
# The nearest number of double precision

A finite number without a sign has bits below those of infinity, and the bits count these numbers in
their order. Every number ends halfway to the next one; so what lies in the interval of a number is
nearer to it than to any other, or halfway between it and a neighbour, and then it is the even one.
-/
import TradingRules.Proofs.Decimal.Value

namespace TradingRules.Decimal

/-! ## The values of bits -/

/-- The bits of infinity. -/
def infinityBits : Nat := 2047 * 2 ^ 52

/-- The value of a number with the given biased exponent and fraction. -/
def valueOfFields (biased fraction : Nat) : ℚ :=
  if biased = 0 then fraction * 2 ^ (-1074 : Int)
  else (2 ^ 52 + fraction) * 2 ^ (biased - 1075 : Int)

/-- The value of a number without a sign that has the given bits. -/
def valueOfBits (n : Nat) : ℚ :=
  valueOfFields (n / 2 ^ 52) (n % 2 ^ 52)

/-- The numbers with one biased exponent lie equally far apart, and each ends halfway to the next
one. -/
theorem stop_ofFields (biased fraction : Nat) :
    2 * (Interval.ofFields biased fraction).stop =
      valueOfFields biased fraction + valueOfFields biased (fraction + 1) := by
  unfold Interval.ofFields valueOfFields
  split_ifs
  · rw [Interval.stop_of]
    generalize (2 : ℚ) ^ (-1074 : Int) = unit
    push_cast
    ring
  · rw [Interval.stop_of]
    push_cast
    ring

/-- One more than the last fraction leads to the next exponent. -/
theorem valueOfFields_next (biased : Nat) :
    valueOfFields biased (2 ^ 52 - 1 + 1) = valueOfFields (biased + 1) 0 := by
  unfold valueOfFields
  rw [if_neg (Nat.succ_ne_zero biased)]
  split_ifs with hzero
  · subst hzero
    norm_num
  · have hexponent : ((biased + 1 : Nat) - 1075 : Int) = biased - 1075 + 1 := by
      push_cast
      ring
    rw [hexponent, zpow_add_one₀ two_ne_zero]
    norm_num
    ring

/-- The interval of a number ends halfway to the next number. -/
theorem stop_ofMagnitude (n : Nat) :
    2 * (Interval.ofMagnitude n).stop = valueOfBits n + valueOfBits (n + 1) := by
  unfold Interval.ofMagnitude valueOfBits
  rw [stop_ofFields]
  congr 1
  by_cases hlast : n % 2 ^ 52 = 2 ^ 52 - 1
  · have hbiased : (n + 1) / 2 ^ 52 = n / 2 ^ 52 + 1 := by omega
    have hfraction : (n + 1) % 2 ^ 52 = 0 := by omega
    rw [hbiased, hfraction, hlast, valueOfFields_next]
  · have hbiased : (n + 1) / 2 ^ 52 = n / 2 ^ 52 := by omega
    have hfraction : (n + 1) % 2 ^ 52 = n % 2 ^ 52 + 1 := by omega
    rw [hbiased, hfraction]

/-- The interval of a number begins halfway from the number before. -/
theorem start_ofMagnitude (n : Nat) :
    2 * (Interval.ofMagnitude (n + 1)).start = valueOfBits n + valueOfBits (n + 1) := by
  rw [Interval.start_ofMagnitude_succ, stop_ofMagnitude]

/-- The interval of a number ends behind it. -/
theorem valueOfFields_lt_stop (biased fraction : Nat) :
    valueOfFields biased fraction < (Interval.ofFields biased fraction).stop := by
  have hunit (e : Int) : (0 : ℚ) < 2 ^ e := zpow_pos two_pos e
  unfold Interval.ofFields valueOfFields
  split_ifs
  · rw [Interval.stop_of]
    exact mul_lt_mul_of_pos_right (by linarith) (hunit _)
  · rw [Interval.stop_of]
    refine mul_lt_mul_of_pos_right ?_ (hunit _)
    push_cast
    linarith

/-- The bits count the numbers in their order. -/
theorem strictMono_valueOfBits : StrictMono valueOfBits := by
  refine strictMono_nat_of_lt_succ fun n => ?_
  have hstop : valueOfBits n < (Interval.ofMagnitude n).stop := valueOfFields_lt_stop _ _
  have hhalf := stop_ofMagnitude n
  linarith

/-! ## Nearest numbers -/

/-- A number of double precision is correctly rounded from a magnitude: it is finite and has no
sign, no such number is nearer, and if another one is as near its last bit is clear. -/
structure IsNearest (x : ℚ) (y : Float) : Prop where
  lt_infinity : y.toBits.toNat < infinityBits
  closest : ∀ n < infinityBits, |valueOfBits y.toBits.toNat - x| ≤ |valueOfBits n - x|
  even : ∀ n < infinityBits, n ≠ y.toBits.toNat →
    |valueOfBits n - x| = |valueOfBits y.toBits.toNat - x| → y.toBits.toNat % 2 = 0

/-- What lies in the interval of a number is no nearer to another one, and less near if the last bit
of the number is set. -/
theorem Interval.Contains.abs_le {m n : Nat} {x : ℚ} (h : (ofMagnitude m).Contains x)
    (hne : n ≠ m) :
    |valueOfBits m - x| ≤ |valueOfBits n - x| ∧
      (m % 2 = 1 → |valueOfBits m - x| < |valueOfBits n - x|) := by
  have hopen (hodd : m % 2 = 1) : (ofMagnitude m).start < x ∧ x < (ofMagnitude m).stop := by
    refine h.inside ?_
    rw [closed_ofMagnitude, hodd]
    rfl
  rcases Nat.lt_or_gt_of_ne hne with hlt | hgt
  · -- the other number is no nearer than the one just below
    obtain ⟨k, rfl⟩ := Nat.exists_eq_add_one_of_ne_zero (Nat.ne_zero_of_lt hlt)
    have hle : valueOfBits n ≤ valueOfBits k :=
      strictMono_valueOfBits.monotone (Nat.le_of_lt_succ hlt)
    have hstep : valueOfBits k < valueOfBits (k + 1) := strictMono_valueOfBits (Nat.lt_succ_self k)
    have hhalf := start_ofMagnitude k
    have hfar : |valueOfBits n - x| = x - valueOfBits n := by
      rw [abs_sub_comm]
      exact abs_of_nonneg (by linarith [h.start_le])
    rw [hfar]
    refine ⟨abs_sub_le_iff.mpr ⟨?_, ?_⟩, fun hodd => abs_sub_lt_iff.mpr ⟨?_, ?_⟩⟩
    · linarith [h.start_le]
    · linarith
    · linarith [(hopen hodd).1]
    · linarith
  · -- the other number is no nearer than the one just above
    have hle : valueOfBits (m + 1) ≤ valueOfBits n := strictMono_valueOfBits.monotone hgt
    have hstep : valueOfBits m < valueOfBits (m + 1) := strictMono_valueOfBits (Nat.lt_succ_self m)
    have hhalf := stop_ofMagnitude m
    have hfar : |valueOfBits n - x| = valueOfBits n - x :=
      abs_of_nonneg (by linarith [h.le_stop])
    rw [hfar]
    refine ⟨abs_sub_le_iff.mpr ⟨?_, ?_⟩, fun hodd => abs_sub_lt_iff.mpr ⟨?_, ?_⟩⟩
    · linarith
    · linarith [h.le_stop]
    · linarith
    · linarith [(hopen hodd).2]

/-- A number is correctly rounded from what lies in its interval. -/
theorem isNearest_of_contains {x : ℚ} {y : Float} (hlt : y.toBits.toNat < infinityBits)
    (h : (Interval.ofMagnitude y.toBits.toNat).Contains x) : IsNearest x y := by
  refine ⟨hlt, fun n _ => ?_, fun n _ hne htie => ?_⟩
  · by_cases hne : n = y.toBits.toNat
    · rw [hne]
    · exact (h.abs_le hne).1
  · rcases Nat.mod_two_eq_zero_or_one y.toBits.toNat with heven | hodd
    · exact heven
    · exact absurd htie ((h.abs_le hne).2 hodd).ne'

/-- What lies halfway between two numbers is nearer to the numbers between them. -/
theorem abs_lt_of_between {a b c x : ℚ} (hab : a < b) (hbc : b < c) (htie : |a - x| = |c - x|) :
    |b - x| < |a - x| := by
  have hhalf : 2 * x = a + c := by
    rcases abs_eq_abs.mp htie with heq | heq
    · linarith
    · linarith
  rw [abs_of_neg (by linarith : a - x < 0)]
  exact abs_sub_lt_iff.mpr ⟨by linarith, by linarith⟩

/-- Only one number is correctly rounded from a magnitude. -/
theorem IsNearest.unique {x : ℚ} {y z : Float} (hy : IsNearest x y) (hz : IsNearest x z) :
    y = z := by
  apply Float.toBits_inj.mp
  apply UInt64.toNat_inj.mp
  by_contra hne
  have htie : |valueOfBits y.toBits.toNat - x| = |valueOfBits z.toBits.toNat - x| :=
    le_antisymm (hy.closest _ hz.lt_infinity) (hz.closest _ hy.lt_infinity)
  have hevenY := hy.even _ hz.lt_infinity (Ne.symm hne) htie.symm
  have hevenZ := hz.even _ hy.lt_infinity hne htie
  wlog hlt : y.toBits.toNat < z.toBits.toNat generalizing y z
  · exact this hz hy (Ne.symm hne) htie.symm hevenZ hevenY (by omega)
  -- both are even, so there is an odd number between them
  have hbetween : |valueOfBits (y.toBits.toNat + 1) - x| < |valueOfBits y.toBits.toNat - x| :=
    abs_lt_of_between (strictMono_valueOfBits (by omega)) (strictMono_valueOfBits (by omega)) htie
  have hclosest := hy.closest (y.toBits.toNat + 1) (by have := hz.lt_infinity; omega)
  linarith

end TradingRules.Decimal
