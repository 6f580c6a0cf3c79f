/-
# Magnitudes

A magnitude is a number without a sign, be it infinite. Sums of magnitudes are magnitudes, and so are
quotients and differences, unless they are no numbers or the difference is below zero. With finite
operands each of them is the exact result, rounded once; and magnitudes compare as the rationals that
they stand for.
-/
import TradingRules.Proofs.Double.Rounded

namespace TradingRules.Double

open Float.Model (UnpackedFloat Format)
open Float.Model.UnpackedFloat (Sign pack unpack)
open TradingRules.Decimal (IsRounded IsUnsigned compose unsigned unsigned_roundWithAccuracy)

/-! ## Unpacked numbers -/

/-- Adding a number is subtracting the negated number. -/
theorem sub_neg (spec : Format) (a b : UnpackedFloat) :
    UnpackedFloat.sub spec a b.neg = UnpackedFloat.add spec a b := by
  have happly (sign : Sign) (n : Int) : (-sign).apply n = -sign.apply n := by
    cases sign
    · exact (Int.neg_neg n).symm
    · rfl
  cases a with
  | notANumber => cases b <;> rfl
  | infinity s =>
    cases b with
    | infinity t => cases s <;> cases t <;> rfl
    | _ => rfl
  | zero s =>
    cases b with
    | zero t => cases s <;> cases t <;> rfl
    | infinity t => cases t <;> rfl
    | finite t m e hm => cases t <;> rfl
    | notANumber => rfl
  | finite s m₁ e₁ h₁ =>
    cases b with
    | finite t m₂ e₂ h₂ =>
      unfold UnpackedFloat.neg UnpackedFloat.sub UnpackedFloat.add
      simp only [happly, sub_neg_eq_add]
    | infinity t => cases t <;> rfl
    | zero t => rfl
    | notANumber => rfl

theorem rational_neg (a : UnpackedFloat) : rational a.neg = -rational a := by
  cases a with
  | finite sign m e hm =>
    cases sign with
    | positive =>
      show ((-m : Int) : ℚ) * 2 ^ e = -(((m : Int) : ℚ) * 2 ^ e)
      rw [Int.cast_neg, neg_mul]
    | negative =>
      show ((m : Int) : ℚ) * 2 ^ e = -(((-m : Int) : ℚ) * 2 ^ e)
      rw [Int.cast_neg, neg_mul, neg_neg]
  | _ => exact neg_zero.symm

/-- A finite number without a sign is zero or positive. -/
theorem zero_or_positive {a : UnpackedFloat} (h : unsigned a = true) (hfinite : a.isFinite = true) :
    a = .zero .positive ∨ ∃ m e hm, a = .finite .positive m e hm := by
  cases a with
  | notANumber => cases hfinite
  | infinity sign => cases hfinite
  | zero sign => cases sign <;> first | exact Or.inl rfl | cases h
  | finite sign m e hm => cases sign <;> first | exact Or.inr ⟨m, e, hm, rfl⟩ | cases h

theorem rational_nonneg {a : UnpackedFloat} (h : unsigned a = true) : 0 ≤ rational a := by
  rw [← abs_of_unsigned h, rational_abs]
  exact abs_nonneg _

/-- A normalized natural number has no sign. -/
theorem unsigned_normalize (spec : Format) {n : Int} (e : Int) (hn : 0 ≤ n) :
    unsigned (UnpackedFloat.normalize spec n e .positive) = true := by
  unfold UnpackedFloat.normalize
  rcases hn.lt_or_eq with hpos | rfl
  · rw [Int.compare_eq_gt.mpr hpos]
    exact unsigned_roundWithAccuracy ..
  · rfl

theorem unsigned_add {a b : UnpackedFloat} (ha : unsigned a = true) (hb : unsigned b = true) :
    unsigned (UnpackedFloat.add Format.binary64 a b) = true := by
  unfold unsigned at ha hb
  split at ha <;> split at hb <;> first | contradiction | rfl | skip
  unfold UnpackedFloat.add
  refine unsigned_normalize _ _ ?_
  exact add_nonneg (Int.natCast_nonneg _) (Int.natCast_nonneg _)

/-- A difference that is not below zero has no sign. -/
theorem unsigned_sub {a b : UnpackedFloat} (ha : unsigned a = true) (hb : unsigned b = true)
    (hfinite : a.isFinite = true) (hfinite' : b.isFinite = true) (hle : rational b ≤ rational a) :
    unsigned (UnpackedFloat.sub Format.binary64 a b) = true := by
  rcases zero_or_positive hb hfinite' with rfl | ⟨m₂, e₂, h₂, rfl⟩
  · rcases zero_or_positive ha hfinite with rfl | ⟨m₁, e₁, h₁, rfl⟩ <;> rfl
  · rcases zero_or_positive ha hfinite with rfl | ⟨m₁, e₁, h₁, rfl⟩
    · have hpos : (0 : ℚ) < ((m₂ : Int) : ℚ) * 2 ^ e₂ := by positivity
      exact absurd hle (not_le.mpr hpos)
    · unfold UnpackedFloat.sub UnpackedFloat.decreaseExponent
      refine unsigned_normalize _ _ ?_
      have hunit : (0 : ℚ) < 2 ^ min e₁ e₂ := zpow_pos two_pos _
      rw [rational_finite, rational_finite, ← apply_shiftLeft .positive m₁ (min_le_left e₁ e₂),
        ← apply_shiftLeft .positive m₂ (min_le_right e₁ e₂), mul_le_mul_iff_left₀ hunit,
        Int.cast_le] at hle
      exact sub_nonneg.mpr hle

/-- A sum without a sign is rounded once. -/
theorem isRounded_add {a b : UnpackedFloat} (ha : unsigned a = true) (hb : unsigned b = true)
    (hfits : Fits a) (hfits' : Fits b) (hfinite : a.isFinite = true) (hfinite' : b.isFinite = true) :
    IsRounded (rational a + rational b) (UnpackedFloat.add Format.binary64 a b) := by
  have hneg : Fits b.neg ∧ b.neg.isFinite = true := by
    cases b <;> exact ⟨hfits', hfinite'⟩
  have hdistance := isRounded_abs_sub hfits hneg.1 hfinite hneg.2
  rw [sub_neg, rational_neg, sub_neg_eq_add, abs_of_unsigned (unsigned_add ha hb),
    abs_of_nonneg (add_nonneg (rational_nonneg ha) (rational_nonneg hb))] at hdistance
  exact hdistance

/-- A difference without a sign is rounded once. -/
theorem isRounded_sub {a b : UnpackedFloat} (ha : unsigned a = true) (hb : unsigned b = true)
    (hfits : Fits a) (hfits' : Fits b) (hfinite : a.isFinite = true) (hfinite' : b.isFinite = true)
    (hle : rational b ≤ rational a) :
    IsRounded (rational a - rational b) (UnpackedFloat.sub Format.binary64 a b) := by
  have hdistance := isRounded_abs_sub hfits hfits' hfinite hfinite'
  rw [abs_of_unsigned (unsigned_sub ha hb hfinite hfinite' hle),
    abs_of_nonneg (sub_nonneg.mpr hle)] at hdistance
  exact hdistance

/-- A quotient of numbers without a sign is rounded once, unless zero divides. -/
theorem isRounded_div {a b : UnpackedFloat} (ha : unsigned a = true) (hb : unsigned b = true)
    (hfinite : a.isFinite = true) (hfinite' : b.isFinite = true) (hne : rational b ≠ 0) :
    IsRounded (rational a / rational b) (UnpackedFloat.div Format.binary64 a b) := by
  rcases zero_or_positive hb hfinite' with rfl | ⟨m₂, e₂, h₂, rfl⟩
  · exact absurd rfl hne
  · rcases zero_or_positive ha hfinite with rfl | ⟨m₁, e₁, h₁, rfl⟩
    · have hzero : rational (.zero .positive) = 0 := rfl
      rw [hzero, zero_div]
      exact isRounded_zero
    · exact Decimal.isRounded_div e₁ e₂ h₁ h₂

/-- Infinity with a magnitude added is infinity, either way round. -/
theorem add_infinity {a : UnpackedFloat} (h : unsigned a = true) (hnumber : a.isNaN = false) :
    UnpackedFloat.add Format.binary64 (.infinity .positive) a = .infinity .positive ∧
      UnpackedFloat.add Format.binary64 a (.infinity .positive) = .infinity .positive := by
  cases a with
  | notANumber => cases hnumber
  | infinity sign => cases sign <;> first | exact ⟨rfl, rfl⟩ | cases h
  | zero sign => exact ⟨rfl, rfl⟩
  | finite sign m e hm => exact ⟨rfl, rfl⟩

/-- Infinity divided by a finite magnitude is infinity, and dividing by it gives zero. -/
theorem div_infinity {a : UnpackedFloat} (h : unsigned a = true) (hfinite : a.isFinite = true) :
    UnpackedFloat.div Format.binary64 (.infinity .positive) a = .infinity .positive ∧
      UnpackedFloat.div Format.binary64 a (.infinity .positive) = .zero .positive := by
  rcases zero_or_positive h hfinite with rfl | ⟨m, e, hm, rfl⟩ <;> exact ⟨rfl, rfl⟩

/-! ## Magnitudes -/

/-- A number without a sign, be it infinite. -/
structure IsMagnitude (x : Float) : Prop where
  isUnsigned : IsUnsigned x
  isNaN : x.isNaN = false

/-- A magnitude is finite or infinite. -/
theorem IsMagnitude.finite_or_infinite {x : Float} (h : IsMagnitude x) :
    x.isFinite = true ∨ x.toModel.unpack = .infinity .positive := by
  have hunsigned : unsigned x.toModel.unpack = true := h.isUnsigned
  have hnumber : x.toModel.unpack.isNaN = false := h.isNaN
  show x.toModel.unpack.isFinite = true ∨ _
  revert hunsigned hnumber
  cases x.toModel.unpack with
  | notANumber => exact fun _ => nofun
  | infinity sign => cases sign <;> first | exact fun _ _ => Or.inr rfl | exact nofun
  | zero sign => exact fun _ _ => Or.inl rfl
  | finite sign m e hm => exact fun _ _ => Or.inl rfl

theorem not_isFinite_of_infinite {x : Float} (h : x.toModel.unpack = .infinity .positive) :
    ¬ x.isFinite = true := by
  show ¬ x.toModel.unpack.isFinite = true
  rw [h]
  exact Bool.false_ne_true

theorem isMagnitude_of_infinite {x : Float} (h : x.toModel.unpack = .infinity .positive) :
    IsMagnitude x := by
  constructor
  case isUnsigned =>
    show unsigned x.toModel.unpack = true
    rw [h]
    rfl
  case isNaN =>
    show x.toModel.unpack.isNaN = false
    rw [h]
    rfl

/-- What a magnitude is rounded to is one. -/
theorem Rounded.isMagnitude {q : ℚ} {x : Float} (h : Rounded q x) : IsMagnitude x := by
  obtain ⟨m, e, -, -, hunpack⟩ := h
  constructor
  case isUnsigned =>
    show unsigned x.toModel.unpack = true
    rw [hunpack]
    unfold compose
    split_ifs <;> rfl
  case isNaN =>
    show x.toModel.unpack.isNaN = false
    rw [hunpack]
    unfold compose
    split_ifs <;> rfl

theorem IsMagnitude.value_nonneg {x : Float} (h : IsMagnitude x) : 0 ≤ value x :=
  rational_nonneg h.isUnsigned

/-- A finite magnitude is rounded to itself. -/
theorem IsMagnitude.rounded {x : Float} (h : IsMagnitude x) (hfinite : x.isFinite = true) :
    Rounded (value x) x := by
  obtain ⟨m, e, hcanonical, hcontains, hunpack⟩ := rounded_abs hfinite
  rw [unpack_abs, abs_of_unsigned h.isUnsigned] at hunpack
  rw [abs_of_nonneg h.value_nonneg] at hcontains
  exact ⟨m, e, hcanonical, hcontains, hunpack⟩

/-! ## Order -/

/-- Infinity is below no finite number. -/
theorem not_le_of_infinite {x y : Float} (hx : x.toModel.unpack = .infinity .positive)
    (hy : y.isFinite = true) : ¬ x ≤ y := by
  have hfinite : y.toModel.unpack.isFinite = true := hy
  rw [le_iff]
  unfold order
  rw [hx]
  cases hunpack : y.toModel.unpack with
  | zero sign => rintro (h | h) <;> cases h
  | finite sign m e hm => rintro (h | h) <;> cases h
  | notANumber | infinity sign =>
    rw [hunpack] at hfinite
    cases hfinite

/-- No magnitude is above infinity. -/
theorem IsMagnitude.le_of_infinite {x y : Float} (hx : IsMagnitude x)
    (hy : y.toModel.unpack = .infinity .positive) : x ≤ y := by
  have hunsigned : unsigned x.toModel.unpack = true := hx.isUnsigned
  rw [le_iff]
  unfold order
  rw [hy]
  rcases hx.finite_or_infinite with hfinite | hinfinite
  · left
    rcases zero_or_positive hunsigned hfinite with hzero | ⟨m, e, hm, hpositive⟩
    · rw [hzero]
      rfl
    · rw [hpositive]
      rfl
  · rw [hinfinite]
    exact Or.inr rfl

/-- Below a finite magnitude are only finite ones, which stand for no more. -/
theorem IsMagnitude.value_le {x y : Float} (hx : IsMagnitude x) (hy : IsMagnitude y)
    (hfinite : y.isFinite = true) (hle : x ≤ y) : x.isFinite = true ∧ value x ≤ value y := by
  have hfinite' : x.isFinite = true := by
    rcases hx.finite_or_infinite with hx' | hx'
    · exact hx'
    · exact absurd hle (not_le_of_infinite hx' hfinite)
  refine ⟨hfinite', ?_⟩
  by_contra hlt
  rw [not_le] at hlt
  -- rounding keeps the order, so that both compare as equal, and equal ones stand for one rational
  have hge := (hy.rounded hfinite).le (hx.rounded hfinite') hlt.le
  rw [le_iff, order_swap] at hge
  rw [le_iff] at hle
  have horder : order x y = some .eq := by
    rcases hle with hle | hle
    · rw [hle] at hge
      rcases hge with hge | hge <;> cases hge
    · exact hle
  exact hlt.ne' (rational_eq_of_compare_eq horder)

/-- A magnitude that is rounded from no more than a finite one stands for is finite, and stands for
no more. -/
theorem Rounded.value_le {q : ℚ} {x y : Float} (hx : Rounded q x) (hy : IsMagnitude y)
    (hfinite : y.isFinite = true) (hle : q ≤ value y) : x.isFinite = true ∧ value x ≤ value y :=
  hx.isMagnitude.value_le hy hfinite (hx.le (hy.rounded hfinite) hle)

/-- A magnitude that is rounded from no less than a finite one stands for is not below it. -/
theorem Rounded.le_of_value_le {q : ℚ} {x y : Float} (hy : Rounded q y) (hx : IsMagnitude x)
    (hfinite : x.isFinite = true) (hle : value x ≤ q) : x ≤ y :=
  (hx.rounded hfinite).le hy hle

/-! ## Operations -/

theorem IsMagnitude.rounded_add {x y : Float} (hx : IsMagnitude x) (hy : IsMagnitude y)
    (hfinite : x.isFinite = true) (hfinite' : y.isFinite = true) :
    Rounded (value x + value y) (x + y) :=
  rounded_of_isRounded
    (isRounded_add hx.isUnsigned hy.isUnsigned (fits x) (fits y) hfinite hfinite') rfl

theorem IsMagnitude.rounded_sub {x y : Float} (hx : IsMagnitude x) (hy : IsMagnitude y)
    (hfinite : x.isFinite = true) (hfinite' : y.isFinite = true) (hle : value y ≤ value x) :
    Rounded (value x - value y) (x - y) :=
  rounded_of_isRounded
    (isRounded_sub hx.isUnsigned hy.isUnsigned (fits x) (fits y) hfinite hfinite' hle) rfl

theorem IsMagnitude.rounded_div {x y : Float} (hx : IsMagnitude x) (hy : IsMagnitude y)
    (hfinite : x.isFinite = true) (hfinite' : y.isFinite = true) (hne : value y ≠ 0) :
    Rounded (value x / value y) (x / y) :=
  rounded_of_isRounded (isRounded_div hx.isUnsigned hy.isUnsigned hfinite hfinite' hne) rfl

/-- A sum of magnitudes is infinite if one of them is. -/
theorem unpack_add_of_infinite {x y : Float} (hx : IsMagnitude x) (hy : IsMagnitude y)
    (h : x.toModel.unpack = .infinity .positive ∨ y.toModel.unpack = .infinity .positive) :
    (x + y).toModel.unpack = .infinity .positive := by
  have hadd : UnpackedFloat.add Format.binary64 x.toModel.unpack y.toModel.unpack =
      .infinity .positive := by
    rcases h with h | h
    · rw [h]
      exact (add_infinity hy.isUnsigned hy.isNaN).1
    · rw [h]
      exact (add_infinity hx.isUnsigned hx.isNaN).2
  show unpack Format.binary64 (pack Format.binary64 _) = _
  rw [hadd]
  exact unpack_pack_of_fits (a := .infinity .positive) trivial

theorem IsMagnitude.add {x y : Float} (hx : IsMagnitude x) (hy : IsMagnitude y) :
    IsMagnitude (x + y) := by
  rcases hx.finite_or_infinite with hfinite | hinfinite
  · rcases hy.finite_or_infinite with hfinite' | hinfinite
    · exact (hx.rounded_add hy hfinite hfinite').isMagnitude
    · exact isMagnitude_of_infinite (unpack_add_of_infinite hx hy (Or.inr hinfinite))
  · exact isMagnitude_of_infinite (unpack_add_of_infinite hx hy (Or.inl hinfinite))

/-- A sum of magnitudes is not below the first of them. -/
theorem IsMagnitude.le_add {x y : Float} (hx : IsMagnitude x) (hy : IsMagnitude y)
    (hfinite : x.isFinite = true) : x ≤ x + y := by
  rcases hy.finite_or_infinite with hfinite' | hinfinite
  · refine (hx.rounded_add hy hfinite hfinite').le_of_value_le hx hfinite ?_
    exact le_add_of_nonneg_right hy.value_nonneg
  · exact hx.le_of_infinite (unpack_add_of_infinite hx hy (Or.inr hinfinite))

/-- Infinity divided by a finite magnitude is infinity. -/
theorem unpack_div_of_infinite {x y : Float} (hx : x.toModel.unpack = .infinity .positive)
    (hy : IsMagnitude y) (hfinite : y.isFinite = true) :
    (x / y).toModel.unpack = .infinity .positive := by
  show unpack Format.binary64 (pack Format.binary64
    (UnpackedFloat.div Format.binary64 x.toModel.unpack y.toModel.unpack)) = _
  rw [hx, (div_infinity hy.isUnsigned hfinite).1]
  exact unpack_pack_of_fits (a := .infinity .positive) trivial

/-- A finite magnitude divided by infinity is zero. -/
theorem rounded_div_of_infinite {x y : Float} (hx : IsMagnitude x) (hfinite : x.isFinite = true)
    (hy : y.toModel.unpack = .infinity .positive) : Rounded 0 (x / y) := by
  refine rounded_of_isRounded isRounded_zero ?_
  show unpack Format.binary64 (pack Format.binary64
    (UnpackedFloat.div Format.binary64 x.toModel.unpack y.toModel.unpack)) = _
  rw [hy, (div_infinity hx.isUnsigned hfinite).2]

/-- Infinity divided by infinity is no number. -/
theorem unpack_div_of_infinite_infinite {x y : Float} (hx : x.toModel.unpack = .infinity .positive)
    (hy : y.toModel.unpack = .infinity .positive) : (x / y).toModel.unpack = .notANumber := by
  show unpack Format.binary64 (pack Format.binary64
    (UnpackedFloat.div Format.binary64 x.toModel.unpack y.toModel.unpack)) = _
  rw [hx, hy]
  rfl

end TradingRules.Double
