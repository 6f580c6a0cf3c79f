/-
# Comparisons turned around

A comparison says the same with its operands exchanged and its sign mirrored. That is plain for the
order; for equality the distance and the greater magnitude are both the same either way. No
comparison holds for what is no number, and two numbers are less, greater or neither.
-/
import TradingRules.Evaluation.Basic
import TradingRules.Proofs.Double.Difference

namespace TradingRules

open TradingRules.Double

namespace Comparison

/-- The comparison that says the same of exchanged operands. -/
def mirrored : Comparison → Comparison
  | .greater => .less
  | .less => .greater
  | .greaterOrEqual => .lessOrEqual
  | .lessOrEqual => .greaterOrEqual
  | .equal => .equal

/-! ## Order -/

/-- How two numbers have to compare for a comparison to hold. Equality holds for other numbers, too. -/
def accepts : Comparison → Ordering → Bool
  | .greater, .gt | .less, .lt | .equal, .eq => true
  | .greaterOrEqual, .gt | .greaterOrEqual, .eq => true
  | .lessOrEqual, .lt | .lessOrEqual, .eq => true
  | _, _ => false

/-- The comparisons besides equality look at nothing but the order. -/
theorem test_eq_any {c : Comparison} (hc : c ≠ .equal) (x y : Float) :
    c.test x y = (order x y).any c.accepts := by
  have hgt : order y x = some .lt ↔ order x y = some .gt := order_swap_eq_iff
  have heq : order y x = some .eq ↔ order x y = some .eq := order_swap_eq_iff
  rw [Bool.eq_iff_iff]
  cases c with
  | equal => exact absurd rfl hc
  | less =>
    rw [test, decide_eq_true_eq, lt_iff]
    rcases order x y with _ | ⟨_ | _ | _⟩ <;> decide
  | greater =>
    rw [test, decide_eq_true_eq, gt_iff_lt, lt_iff, hgt]
    rcases order x y with _ | ⟨_ | _ | _⟩ <;> decide
  | lessOrEqual =>
    rw [test, decide_eq_true_eq, le_iff]
    rcases order x y with _ | ⟨_ | _ | _⟩ <;> decide
  | greaterOrEqual =>
    rw [test, decide_eq_true_eq, ge_iff_le, le_iff, hgt, heq]
    rcases order x y with _ | ⟨_ | _ | _⟩ <;> decide

/-! ## Equality -/

theorem isClose_iff {x y : Float} : isClose x y = true ↔ order x y = some .eq ∨
    (x - y).abs ≤ tolerance * greaterOf x.abs y.abs := by
  unfold isClose
  rw [Bool.or_eq_true, decide_eq_true_eq, beq_iff]

/-- The order tells the greater of two if the first one is a number. -/
theorem greaterOf_of_isNaN_eq_false {x : Float} (h : x.isNaN = false) (y : Float) :
    greaterOf x y = if x < y then y else x := by
  rw [greaterOf, h]
  exact if_neg Bool.false_ne_true

/-- Of two magnitudes the same one is the greater, whichever is named first. -/
theorem unpack_greaterOf_swap {x y : Float} (h : ¬ (x.isNaN = true ∨ y.isNaN = true)) :
    (greaterOf y.abs x.abs).toModel.unpack = (greaterOf x.abs y.abs).toModel.unpack := by
  have hswap : y.abs < x.abs ↔ order x.abs y.abs = some .gt := by
    rw [lt_iff, order_swap_eq_iff]
    rfl
  obtain ⟨hx, hy⟩ : x.abs.isNaN = false ∧ y.abs.isNaN = false := by
    rw [isNaN_abs, isNaN_abs, ← Bool.not_eq_true, ← Bool.not_eq_true]
    exact not_or.mp h
  rw [greaterOf_of_isNaN_eq_false hx, greaterOf_of_isNaN_eq_false hy]
  cases horder : order x.abs y.abs with
  | none =>
    rw [order_eq_none_iff, isNaN_abs, isNaN_abs] at horder
    exact absurd horder h
  | some o =>
    rw [horder] at hswap
    cases o with
    | lt => rw [if_neg (mt hswap.mp (by decide)), if_pos (lt_iff.mpr horder)]
    | gt => rw [if_pos (hswap.mpr rfl), if_neg (not_lt_of_order_eq horder (by decide))]
    | eq =>
      -- the first one is taken each time, and the two are unpacked as the same
      rw [if_neg (mt hswap.mp (by decide)), if_neg (not_lt_of_order_eq horder (by decide))]
      exact (unpack_abs_eq_of_order_eq horder).symm

/-- What is no number equals nothing. -/
theorem isClose_eq_false {x y : Float} (h : x.isNaN = true ∨ y.isNaN = true) :
    isClose x y = false := by
  rw [Bool.eq_false_iff, ne_eq, isClose_iff, le_iff, order_eq_none_iff.mpr h,
    order_eq_none_iff.mpr (Or.inl (isNaN_abs_sub h))]
  rintro (hnone | hnone | hnone) <;> cases hnone

/-- Equality is symmetric. -/
theorem isClose_comm (x y : Float) : isClose y x = isClose x y := by
  by_cases hnan : x.isNaN = true ∨ y.isNaN = true
  · rw [isClose_eq_false hnan, isClose_eq_false hnan.symm]
  · have hproduct : (tolerance * greaterOf y.abs x.abs).toModel.unpack =
        (tolerance * greaterOf x.abs y.abs).toModel.unpack := by
      rw [unpack_mul, unpack_mul, unpack_greaterOf_swap hnan]
    have horder : order (y - x).abs (tolerance * greaterOf y.abs x.abs) =
        order (x - y).abs (tolerance * greaterOf x.abs y.abs) := by
      unfold order
      rw [unpack_abs_sub_swap, hproduct]
    rw [Bool.eq_iff_iff, isClose_iff, isClose_iff, le_iff, le_iff, horder]
    exact or_congr order_swap_eq_iff Iff.rfl

/-! ## Exchanged operands -/

/-- A mirrored comparison says the same of exchanged numbers. -/
theorem test_mirrored (c : Comparison) (x y : Float) : c.mirrored.test y x = c.test x y := by
  cases c with
  | equal => exact isClose_comm x y
  | _ => rfl

/-- No comparison holds for what is no number. -/
theorem test_eq_false {x y : Float} (h : x.isNaN = true ∨ y.isNaN = true) (c : Comparison) :
    c.test x y = false := by
  by_cases hc : c = .equal
  · rw [hc]
    exact isClose_eq_false h
  · rw [test_eq_any hc, order_eq_none_iff.mpr h]
    rfl

/-- Of two numbers the first is greater, less or neither. -/
theorem test_trichotomy {x y : Float} (h : ¬ (x.isNaN = true ∨ y.isNaN = true)) :
    ∃ o, (test .greater x y = true ↔ o = Ordering.gt) ∧
      (test .less x y = true ↔ o = Ordering.lt) ∧
      (test .greaterOrEqual x y = true ∧ test .lessOrEqual x y = true ↔ o = Ordering.eq) := by
  obtain ⟨o, horder⟩ := Option.ne_none_iff_exists'.mp (mt order_eq_none_iff.mp h)
  refine ⟨o, ?_, ?_, ?_⟩
  · rw [test_eq_any (by decide), horder]
    cases o <;> decide
  · rw [test_eq_any (by decide), horder]
    cases o <;> decide
  · rw [test_eq_any (by decide), test_eq_any (by decide), horder]
    cases o <;> decide

/-- What is neither less nor greater is equal. -/
theorem test_equal_of_le {x y : Float} (hge : test .greaterOrEqual x y = true)
    (hle : test .lessOrEqual x y = true) : test .equal x y = true := by
  rw [test_eq_any (by decide)] at hge hle
  have horder : order x y = some .eq := by
    revert hge hle
    rcases order x y with _ | ⟨_ | _ | _⟩ <;> decide
  exact isClose_iff.mpr (Or.inl horder)

end Comparison

namespace Condition

/-- **Comparisons turned around.** Whatever the signal and the market are, a comparison of two
expressions is true exactly if the mirrored comparison of the exchanged expressions is. If one of them
is no number, every comparison is false. Otherwise exactly one of the following is true: the first is
greater; it is less; it is greater or equal and less or equal. In the last case the two are equal. -/
theorem mirroring_exact (left right : Expression) (now : Situation) :
    (∀ c, (compare left c right).isTrue now = (compare right c.mirrored left).isTrue now) ∧
    ((left.value now).toFloat.isNaN = true ∨ (right.value now).toFloat.isNaN = true →
      ∀ c, (compare left c right).isTrue now = false) ∧
    (¬ ((left.value now).toFloat.isNaN = true ∨ (right.value now).toFloat.isNaN = true) →
      ∃ o, ((compare left .greater right).isTrue now = true ↔ o = Ordering.gt) ∧
        ((compare left .less right).isTrue now = true ↔ o = Ordering.lt) ∧
        ((compare left .greaterOrEqual right).isTrue now = true ∧
          (compare left .lessOrEqual right).isTrue now = true ↔ o = Ordering.eq)) ∧
    ((compare left .greaterOrEqual right).isTrue now = true ∧
      (compare left .lessOrEqual right).isTrue now = true →
        (compare left .equal right).isTrue now = true) := by
  refine ⟨?_, ?_, ?_, ?_⟩
  · intro c
    exact (Comparison.test_mirrored c _ _).symm
  · intro hnan c
    exact Comparison.test_eq_false hnan c
  · intro hnumbers
    exact Comparison.test_trichotomy hnumbers
  · rintro ⟨hge, hle⟩
    exact Comparison.test_equal_of_le hge hle

/-- A price that is no number, a volume of minus zero and a truth value. -/
theorem mirroring_of_oddMarket :
    let now : Situation := ⟨⟨"MOON"⟩, ⟨0.0 / 0.0, -0.0, []⟩⟩
    ((Expression.price.value now).toFloat.isNaN = true ∧
      ∀ c, (compare .price c .price).isTrue now = false) ∧
    (∀ c, (compare .volume c (.literal 0.0)).isTrue now =
      (compare (.literal 0.0) c.mirrored .volume).isTrue now) ∧
    (compare .volume .equal (.literal 0.0)).isTrue now = true ∧
    (compare (.tweetContains "moon") .greater .volume).isTrue now = true ∧
      ¬ (compare (.tweetContains "moon") .less .volume).isTrue now = true := by
  intro now
  obtain ⟨-, hnan, -, -⟩ := mirroring_exact .price .price now
  obtain ⟨hmirrored, -, -, hequal⟩ := mirroring_exact .volume (.literal 0.0) now
  obtain ⟨-, -, hnumbers, -⟩ := mirroring_exact (.tweetContains "moon") .volume now
  have hprice : (Expression.price.value now).toFloat.isNaN = true := by decide +kernel
  have hzero : (compare .volume .greaterOrEqual (.literal 0.0)).isTrue now = true ∧
      (compare .volume .lessOrEqual (.literal 0.0)).isTrue now = true := by decide +kernel
  have hmoon : (compare (.tweetContains "moon") .greater .volume).isTrue now = true := by
    decide +kernel
  obtain ⟨o, hgreater, hless, -⟩ := hnumbers (by decide +kernel)
  refine ⟨⟨hprice, hnan (Or.inl hprice)⟩, hmirrored, hequal hzero, hmoon, ?_⟩
  rw [hless, hgreater.mp hmoon]
  decide

end Condition

end TradingRules
