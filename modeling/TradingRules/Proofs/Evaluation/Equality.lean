/-
# Equality up to the tolerance

Two finite numbers that are equal up to the tolerance are not far apart, and zero equals zero alone.
An infinite number is at an infinite distance from every other one, but the product of its magnitude
with the tolerance is infinite as well: it equals every number.
-/
import TradingRules.Proofs.Double.Rounded
import TradingRules.Proofs.Evaluation.Mirroring

namespace TradingRules.Comparison

open Float.Model (UnpackedFloat Format)
open Float.Model.UnpackedFloat (pack unpack)
open TradingRules.Decimal (IsCanonical compose)
open TradingRules.Double

/-! ## The tolerance -/

theorem unpack_tolerance : tolerance.toModel.unpack =
    .finite .positive 4835703278458517 (-82) (by decide) := by
  rfl

/-- The tolerance is a billionth, rounded up. -/
theorem value_tolerance : value tolerance = 4835703278458517 / 2 ^ 82 := by
  unfold value
  rw [unpack_tolerance, rational_finite]
  norm_num [UnpackedFloat.Sign.apply]

theorem le_value_tolerance : 1 / 10 ^ 9 ≤ value tolerance := by
  rw [value_tolerance]
  norm_num

theorem value_tolerance_le : value tolerance ≤ (1 + 1 / 10 ^ 16) / 10 ^ 9 := by
  rw [value_tolerance]
  norm_num

/-! ## Finite numbers -/

/-- The distance of finite numbers is a multiple of the least number. -/
theorem exists_distance_eq {x y : Float} (hx : x.isFinite = true) (hy : y.isFinite = true) :
    ∃ k : Nat, |value x - value y| = k * 2 ^ (-1074 : Int) := by
  obtain ⟨i, hi⟩ := exists_value_eq hx
  obtain ⟨j, hj⟩ := exists_value_eq hy
  refine ⟨(i - j).natAbs, ?_⟩
  rw [hi, hj, ← sub_mul, ← Int.cast_sub, abs_mul_least]

/-- The greater of two magnitudes. -/
theorem exists_greaterOf {x y : Float} (hx : x.isFinite = true) (hy : y.isFinite = true) :
    ∃ z : Float, z.isFinite = true ∧ greaterOf x.abs y.abs = z.abs ∧
      max |value x| |value y| = |value z| := by
  have hnumber : x.abs.isNaN = false := (isNaN_abs x).trans (isNaN_of_isFinite hx)
  rw [greaterOf_of_isNaN_eq_false hnumber]
  split_ifs with hlt
  · rw [abs_lt_abs_iff hx hy] at hlt
    exact ⟨y, hy, rfl, max_eq_right hlt.le⟩
  · rw [abs_lt_abs_iff hx hy] at hlt
    exact ⟨x, hx, rfl, max_eq_left (not_lt.mp hlt)⟩

/-- The allowed distance of finite numbers is rounded once. -/
theorem rounded_allowance {x y : Float} (hx : x.isFinite = true) (hy : y.isFinite = true) :
    Rounded (value tolerance * max |value x| |value y|)
      (tolerance * greaterOf x.abs y.abs) := by
  obtain ⟨z, hz, hgreater, hmax⟩ := exists_greaterOf hx hy
  obtain ⟨m, e, -, -, habs, hvalue⟩ := exists_abs_eq_compose (fits z) hz
  have hmax' : max |value x| |value y| = m * 2 ^ e := hmax.trans hvalue
  refine rounded_of_isRounded ?_ (unpack_mul _ _)
  rw [hgreater, hmax', unpack_abs, habs, unpack_tolerance]
  have hpositive : 0 < 4835703278458517 := by decide
  have hlarge : 2 ^ 52 ≤ 4835703278458517 := by decide
  have hproduct := isRounded_mul_compose m (-82) e hpositive hlarge
  have hscale : value tolerance = (4835703278458517 : Nat) * 2 ^ (-82 : Int) := by
    rw [value_tolerance]
    norm_num
  rw [hscale]
  exact hproduct

/-- The allowed distance of finite numbers does not overflow. -/
theorem allowance_lt_overflow {x y : Float} (hx : x.isFinite = true) (hy : y.isFinite = true) :
    value tolerance * max |value x| |value y| < Decimal.overflow := by
  have hlt {z : Float} (hz : z.isFinite = true) : |value z| < Decimal.overflow := by
    obtain ⟨m, e, hcanonical, hmax, -, hvalue⟩ := exists_abs_eq_compose (fits z) hz
    exact hvalue.trans_lt (Decimal.lt_overflow hcanonical hmax (contains_intervalOf_self m e))
  have hone : value tolerance ≤ 1 := value_tolerance_le.trans (by norm_num)
  have hnonneg : 0 ≤ max |value x| |value y| := le_max_of_le_left (abs_nonneg _)
  calc value tolerance * max |value x| |value y| ≤ 1 * max |value x| |value y| :=
        mul_le_mul_of_nonneg_right hone hnonneg
    _ < Decimal.overflow := by
        rw [one_mul]
        exact max_lt (hlt hx) (hlt hy)

/-- The greater magnitude is a multiple of the least number. -/
theorem exists_max_eq {x y : Float} (hx : x.isFinite = true) (hy : y.isFinite = true) :
    ∃ n : Nat, max |value x| |value y| = n * 2 ^ (-1074 : Int) := by
  obtain ⟨z, hz, -, hmax⟩ := exists_greaterOf hx hy
  obtain ⟨n, hn⟩ := exists_value_eq hz
  refine ⟨n.natAbs, ?_⟩
  rw [hmax, hn, abs_mul_least]

/-- Numbers within a billionth of the greater magnitude are equal. -/
theorem isClose_of_near {x y : Float} (hx : x.isFinite = true) (hy : y.isFinite = true)
    (hnear : |value x - value y| ≤ 1 / 10 ^ 9 * max |value x| |value y|) : isClose x y = true := by
  have hnonneg : 0 ≤ max |value x| |value y| := le_max_of_le_left (abs_nonneg _)
  have hallowed : |value x - value y| ≤ value tolerance * max |value x| |value y| :=
    hnear.trans (mul_le_mul_of_nonneg_right le_value_tolerance hnonneg)
  exact isClose_iff.mpr (Or.inr ((rounded_abs_sub hx hy).le (rounded_allowance hx hy) hallowed))

/-- If half of a unit is allowed for some units, then these are half a billion at least. -/
theorem le_of_half_le {unit : ℚ} (hunit : 0 < unit) {n : Nat}
    (h : unit ≤ 2 * (value tolerance * (n * unit))) : unit ≤ 2 / 10 ^ 9 * (n * unit) := by
  have hscale : 1 * unit ≤ 2 * value tolerance * n * unit := by linarith
  have hone : 1 ≤ 2 * value tolerance * n := le_of_mul_le_mul_right hscale hunit
  -- one unit less would not do: the tolerance is rounded up by less than that
  have hmany : 500000000 ≤ n := by
    by_contra hfew
    have hfew' : (n : ℚ) ≤ 499999999 := by exact_mod_cast (by omega : n ≤ 499999999)
    have hle : 2 * value tolerance * n ≤ 2 * ((1 + 1 / 10 ^ 16) / 10 ^ 9) * 499999999 :=
      mul_le_mul (mul_le_mul_of_nonneg_left value_tolerance_le two_pos.le) hfew'
        (Nat.cast_nonneg n) (by norm_num)
    norm_num at hle
    linarith
  have hmany' : (500000000 : ℚ) ≤ n := by exact_mod_cast hmany
  calc unit = 2 / 10 ^ 9 * (500000000 * unit) := by ring
    _ ≤ 2 / 10 ^ 9 * (n * unit) := by
        refine mul_le_mul_of_nonneg_left ?_ (by norm_num)
        exact mul_le_mul_of_nonneg_right hmany' hunit.le

/-- Equal numbers are at most two billionths of the greater magnitude apart. The second billionth is
needed among the least numbers, where the allowed distance is rounded by as much as its half. -/
theorem near_of_isClose {x y : Float} (hx : x.isFinite = true) (hy : y.isFinite = true)
    (hclose : isClose x y = true) :
    |value x - value y| ≤ 2 / 10 ^ 9 * max |value x| |value y| := by
  have hnonneg : 0 ≤ max |value x| |value y| := le_max_of_le_left (abs_nonneg _)
  rcases isClose_iff.mp hclose with horder | hle
  · have hsame : value x = value y := rational_eq_of_compare_eq horder
    rw [hsame, sub_self, abs_zero]
    positivity
  · obtain ⟨k, hk⟩ := exists_distance_eq hx hy
    rcases (rounded_abs_sub hx hy).le_or_same (rounded_allowance hx hy)
      (allowance_lt_overflow hx hy) hle with hallowed | ⟨m, e, hcanonical, hdistance, hallowed⟩
    · refine hallowed.trans (mul_le_mul_of_nonneg_right (value_tolerance_le.trans ?_) hnonneg)
      norm_num
    · rcases le_of_same_interval hcanonical hdistance hallowed hk with hnear | ⟨hleast, hhalf⟩
      · have hscale := mul_le_mul_of_nonneg_right value_tolerance_le hnonneg
        linarith
      · -- a distance of one least number is allowed from half a billion of them on
        obtain ⟨n, hn⟩ := exists_max_eq hx hy
        rw [hn] at hhalf ⊢
        rw [hleast]
        exact le_of_half_le (zpow_pos two_pos _) hhalf

/-! ## Infinite numbers -/

theorem exists_unpack_eq_infinity {x : Float} (h : x.isInf = true) :
    ∃ sign, x.toModel.unpack = .infinity sign := by
  have hinfinity : x.toModel.unpack.isInf = true := h
  revert hinfinity
  cases x.toModel.unpack with
  | infinity sign => exact fun _ => ⟨sign, rfl⟩
  | _ => exact nofun

/-- The distance that is allowed from an infinite number is infinite. -/
theorem unpack_allowance_of_isInf {x : Float} (h : x.isInf = true) (y : Float) :
    (tolerance * greaterOf x.abs y.abs).toModel.unpack = .infinity .positive := by
  obtain ⟨sign, hinfinity⟩ := exists_unpack_eq_infinity h
  have hmagnitude : x.abs.toModel.unpack = .infinity .positive := by
    rw [unpack_abs, hinfinity]
    rfl
  have hnumber : x.abs.isNaN = false := congrArg UnpackedFloat.isNaN hmagnitude
  have hgreater : greaterOf x.abs y.abs = x.abs := by
    rw [greaterOf_of_isNaN_eq_false hnumber, if_neg]
    rw [lt_iff]
    unfold order
    rw [hmagnitude]
    cases y.abs.toModel.unpack with
    | infinity t => cases t <;> exact nofun
    | _ => exact nofun
  rw [unpack_mul, hgreater, hmagnitude, unpack_tolerance]
  rfl

/-- An infinite number equals whatever is a number: the distance is infinite, but so is the distance
that is allowed. -/
theorem isClose_of_isInf {x y : Float} (hx : x.isInf = true) (hy : y.isNaN = false) :
    isClose x y = true := by
  obtain ⟨s, hs⟩ := exists_unpack_eq_infinity hx
  have hfar (hsub : UnpackedFloat.sub Format.binary64 x.toModel.unpack y.toModel.unpack =
      .infinity s) : isClose x y = true := by
    have hdistance : (x - y).abs.toModel.unpack = .infinity .positive := by
      rw [unpack_abs_sub, hsub]
      exact unpack_pack_of_fits (a := .infinity .positive) trivial
    refine isClose_iff.mpr (Or.inr (le_iff.mpr (Or.inr ?_)))
    unfold order
    rw [hdistance, unpack_allowance_of_isInf hx]
    rfl
  have hnumber : y.toModel.unpack.isNaN = false := hy
  cases hunpack : y.toModel.unpack with
  | notANumber =>
    rw [hunpack] at hnumber
    cases hnumber
  | zero t =>
    apply hfar
    rw [hs, hunpack]
    rfl
  | finite t m e hm =>
    apply hfar
    rw [hs, hunpack]
    rfl
  | infinity t =>
    -- the distance of an infinity from itself is no number, but the two compare as equal
    by_cases hsame : s = t
    · refine isClose_iff.mpr (Or.inl ?_)
      unfold order
      rw [hs, hunpack, hsame]
      cases t <;> rfl
    · apply hfar
      rw [hs, hunpack]
      cases s <;> cases t <;> first | rfl | exact absurd rfl hsame

/-! ## Operands -/

/-- **What equality up to the tolerance says.** What is no number equals nothing. If both operands are
numbers and one of them is infinite, they are equal, whatever the other one is. Finite operands are
equal if they are within a billionth of the greater magnitude, and if they are equal they are within
two billionths of it; so zero equals only zero. -/
theorem equality_exact (left right : Operand) :
    (left.toFloat.isNaN = true ∨ right.toFloat.isNaN = true →
      apply .equal left right = false) ∧
    (left.toFloat.isNaN = false → right.toFloat.isNaN = false →
      left.toFloat.isInf = true ∨ right.toFloat.isInf = true → apply .equal left right = true) ∧
    (left.toFloat.isFinite = true → right.toFloat.isFinite = true →
      (apply .equal left right = true → |value left.toFloat - value right.toFloat| ≤
        2 / 10 ^ 9 * max |value left.toFloat| |value right.toFloat|) ∧
      (|value left.toFloat - value right.toFloat| ≤
        1 / 10 ^ 9 * max |value left.toFloat| |value right.toFloat| →
          apply .equal left right = true) ∧
      (value left.toFloat = 0 → (apply .equal left right = true ↔ value right.toFloat = 0))) := by
  refine ⟨isClose_eq_false, ?_, ?_⟩
  · rintro hleft hright (hinf | hinf)
    · exact isClose_of_isInf hinf hright
    · have hswapped := isClose_of_isInf hinf hleft
      rw [isClose_comm] at hswapped
      exact hswapped
  · intro hleft hright
    refine ⟨near_of_isClose hleft hright, isClose_of_near hleft hright, ?_⟩
    intro hzero
    constructor
    · intro hclose
      have hnear := near_of_isClose hleft hright hclose
      rw [hzero, zero_sub, abs_neg, abs_zero, max_eq_right (abs_nonneg _)] at hnear
      apply abs_eq_zero.mp
      linarith [abs_nonneg (value right.toFloat)]
    · intro hzero'
      refine isClose_of_near hleft hright ?_
      rw [hzero, hzero', sub_self, abs_zero, max_self, mul_zero]

/-- Zero and a very small number differ, five and five with a little more are equal. -/
theorem equality_of_smallNumbers :
    (value (Operand.number 1e-10).toFloat ≠ 0 ∧
      apply .equal (.truth false) (.number 1e-10) = false) ∧
    |value (Operand.number 5.0).toFloat - value (Operand.number 5.000000000001).toFloat| ≤
      2 / 10 ^ 9 *
        max |value (Operand.number 5.0).toFloat| |value (Operand.number 5.000000000001).toFloat| ∧
    apply .equal (.number (0.0 / 0.0)) (.truth true) = false := by
  obtain ⟨-, -, hsmall⟩ := equality_exact (.truth false) (.number 1e-10)
  obtain ⟨-, -, hfive⟩ := equality_exact (.number 5.0) (.number 5.000000000001)
  obtain ⟨hnan, -, -⟩ := equality_exact (.number (0.0 / 0.0)) (.truth true)
  obtain ⟨-, -, hzero⟩ := hsmall (by decide +kernel) (by decide +kernel)
  obtain ⟨hnear, -, -⟩ := hfive (by decide +kernel) (by decide +kernel)
  have hdiffer : apply .equal (.truth false) (.number 1e-10) = false := by decide +kernel
  refine ⟨⟨?_, hdiffer⟩, hnear (by decide +kernel), hnan (by decide +kernel)⟩
  intro hvalue
  rw [(hzero rfl).mpr hvalue] at hdiffer
  cases hdiffer

/-- Infinity equals zero, other finite numbers and the infinity with the other sign. -/
theorem infinity_equals_every_number :
    (Operand.number (1.0 / 0.0)).toFloat.isInf = true ∧ (Float.isFinite 5.0) = true ∧
      apply .equal (.number (1.0 / 0.0)) (.number 5.0) = true ∧
      apply .equal (.number 0.0) (.number (1.0 / 0.0)) = true ∧
      apply .equal (.number (1.0 / 0.0)) (.number (-(1.0 / 0.0))) = true := by
  decide +kernel

end TradingRules.Comparison
