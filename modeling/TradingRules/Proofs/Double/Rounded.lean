/-
# Rounded magnitudes

A finite number stands for a rational. The operations round the exact result, and rounding keeps the
order: of two rounded magnitudes the one that was the greater is no smaller afterwards. It can make
two magnitudes the same, but these were then in one interval.
-/
import TradingRules.Proofs.Double.Difference

namespace TradingRules.Double

open Float.Model (UnpackedFloat Format)
open Float.Model.UnpackedFloat (Sign pack unpack)
open TradingRules.Decimal (Interval IsCanonical IsRounded bitsOf compose compose_eq
  contains_intervalOf exponentFor intervalOf isRounded_roundWithAccuracy ofMagnitude_bitsOf
  targetExponent_totalExponent)

/-! ## Values -/

/-- The rational that an unpacked number stands for, if it is finite. -/
def rational : UnpackedFloat → ℚ
  | .finite sign m e _ => sign.apply m * 2 ^ e
  | .infinity _ | .zero _ | .notANumber => 0

theorem rational_finite (sign : Sign) {m : Nat} (e : Int) (hm : 0 < m) :
    rational (.finite sign m e hm) = sign.apply m * 2 ^ e :=
  rfl

theorem rational_compose (m : Nat) (e : Int) : rational (compose m e) = m * 2 ^ e := by
  unfold compose
  split_ifs with hzero
  · rw [hzero, Nat.cast_zero, zero_mul]
    rfl
  · show ((m : Int) : ℚ) * 2 ^ e = m * 2 ^ e
    rw [Int.cast_natCast]

theorem rational_abs (a : UnpackedFloat) : rational a.abs = |rational a| := by
  cases a with
  | finite sign m e hm =>
    have hunit : (0 : ℚ) < 2 ^ e := zpow_pos two_pos e
    cases sign with
    | positive =>
      show ((m : Int) : ℚ) * 2 ^ e = |((m : Int) : ℚ) * 2 ^ e|
      rw [abs_of_nonneg (by positivity)]
    | negative =>
      show ((m : Int) : ℚ) * 2 ^ e = |((-m : Int) : ℚ) * 2 ^ e|
      rw [Int.cast_neg, neg_mul, abs_neg, abs_of_nonneg (by positivity)]
  | _ => exact abs_zero.symm

/-- The rational that a finite number stands for. -/
def value (x : Float) : ℚ :=
  rational x.toModel.unpack

/-- Numbers that compare as equal have one value. -/
theorem rational_eq_of_compare_eq {a b : UnpackedFloat} (h : a.compare b = some .eq) :
    rational a = rational b := by
  cases a with
  | notANumber => cases h
  | infinity s => cases s <;> cases b <;> first | rfl | cases h
  | zero s =>
    cases b with
    | finite t m e hm => cases t <;> cases h
    | _ => rfl
  | finite s m₁ e₁ h₁ =>
    cases b with
    | notANumber => cases h
    | infinity t => cases t <;> cases h
    | zero t => cases s <;> cases h
    | finite t m₂ e₂ h₂ =>
      have hparts : s = t ∧ (compare e₁ e₂).then (compare m₁ m₂) = .eq := by
        cases s <;> cases t
        · exact ⟨rfl, Ordering.swap_eq_eq.mp (Option.some.inj h)⟩
        · cases h
        · cases h
        · exact ⟨rfl, Option.some.inj h⟩
      obtain ⟨rfl, hparts⟩ := hparts
      rw [Ordering.then_eq_eq, Int.compare_eq_eq, Nat.compare_eq_eq] at hparts
      obtain ⟨rfl, rfl⟩ := hparts
      rfl

/-- The magnitude of a number that fits is canonical, unless it is infinite or no number. -/
theorem exists_abs_eq_compose {a : UnpackedFloat} (h : Fits a) (hfinite : a.isFinite = true) :
    ∃ m e, IsCanonical m e ∧ e ≤ 971 ∧ a.abs = compose m e ∧ |rational a| = m * 2 ^ e := by
  have hvalue {m : Nat} {e : Int} (habs : a.abs = compose m e) : |rational a| = m * 2 ^ e := by
    rw [← rational_abs, habs, rational_compose]
  cases a with
  | notANumber => cases hfinite
  | infinity sign => cases hfinite
  | zero sign => exact ⟨0, -1074, ⟨by decide, le_rfl, Or.inr rfl⟩, by decide, rfl, hvalue rfl⟩
  | finite sign m e hm =>
    have habs : UnpackedFloat.abs (.finite sign m e hm) = compose m e := (compose_eq hm).symm
    exact ⟨m, e, h.1, h.2, habs, hvalue habs⟩

/-! ## Rounding keeps the order -/

theorem bitsOf_pos {m : Nat} {e : Int} (h : IsCanonical m e) (hm : 0 < m) : 0 < bitsOf m e := by
  have hle := h.le_exponent
  unfold bitsOf
  split_ifs <;> omega

/-- The exponent counts for more than the mantissa. -/
theorem bitsOf_lt_of_exponent_lt {m₁ m₂ : Nat} {e₁ e₂ : Int} (h₁ : IsCanonical m₁ e₁)
    (h₂ : IsCanonical m₂ e₂) (hlt : e₁ < e₂) : bitsOf m₁ e₁ < bitsOf m₂ e₂ := by
  have hlt₁ := h₁.lt
  have hle₁ := h₁.le_exponent
  have hnormal := h₂.normal
  unfold bitsOf
  split_ifs <;> omega

/-- With one exponent the mantissas count. -/
theorem bitsOf_lt_of_mantissa_lt {m₁ m₂ : Nat} {e : Int} (h₁ : IsCanonical m₁ e)
    (h₂ : IsCanonical m₂ e) (hlt : m₁ < m₂) : bitsOf m₁ e < bitsOf m₂ e := by
  have hnormal₁ := h₁.normal
  have hnormal₂ := h₂.normal
  unfold bitsOf
  split_ifs <;> omega

/-- Canonical numbers compare as their bits. -/
theorem compare_compose {m₁ m₂ : Nat} {e₁ e₂ : Int} (h₁ : IsCanonical m₁ e₁)
    (h₂ : IsCanonical m₂ e₂) :
    (compose m₁ e₁).compare (compose m₂ e₂) = some (compare (bitsOf m₁ e₁) (bitsOf m₂ e₂)) := by
  have hzero (e : Int) : bitsOf 0 e = 0 := rfl
  rcases Nat.eq_zero_or_pos m₁ with rfl | hm₁
  · rcases Nat.eq_zero_or_pos m₂ with rfl | hm₂
    · rfl
    · rw [compose_eq hm₂, hzero, Nat.compare_eq_lt.mpr (bitsOf_pos h₂ hm₂)]
      rfl
  · rcases Nat.eq_zero_or_pos m₂ with rfl | hm₂
    · rw [compose_eq hm₁, hzero, Nat.compare_eq_gt.mpr (bitsOf_pos h₁ hm₁)]
      rfl
    · rw [compose_eq hm₁, compose_eq hm₂]
      show some ((compare e₁ e₂).then (compare m₁ m₂)) = _
      rcases lt_trichotomy e₁ e₂ with hlt | rfl | hgt
      · rw [Int.compare_eq_lt.mpr hlt, Nat.compare_eq_lt.mpr (bitsOf_lt_of_exponent_lt h₁ h₂ hlt)]
        rfl
      · rw [Int.compare_eq_eq.mpr rfl, Ordering.eq_then]
        rcases lt_trichotomy m₁ m₂ with hlt | rfl | hgt
        · rw [Nat.compare_eq_lt.mpr hlt,
            Nat.compare_eq_lt.mpr (bitsOf_lt_of_mantissa_lt h₁ h₂ hlt)]
        · rw [Nat.compare_eq_eq.mpr rfl, Nat.compare_eq_eq.mpr rfl]
        · rw [Nat.compare_eq_gt.mpr hgt,
            Nat.compare_eq_gt.mpr (bitsOf_lt_of_mantissa_lt h₂ h₁ hgt)]
      · rw [Int.compare_eq_gt.mpr hgt, Nat.compare_eq_gt.mpr (bitsOf_lt_of_exponent_lt h₂ h₁ hgt)]
        rfl

/-- Infinity is greater than every canonical number. -/
theorem compare_compose_infinity (m : Nat) (e : Int) :
    (compose m e).compare (.infinity .positive) = some .lt := by
  unfold compose
  split_ifs <;> rfl

/-- A number is what a magnitude is rounded to: the canonical number whose interval holds it, or
infinity if that is larger than every finite number. -/
def Rounded (q : ℚ) (x : Float) : Prop :=
  ∃ m e, IsCanonical m e ∧ (intervalOf m e).Contains q ∧
    x.toModel.unpack = if e ≤ 971 then compose m e else .infinity .positive

/-- What is rounded and packed is what the magnitude is rounded to. -/
theorem rounded_of_isRounded {q : ℚ} {a : UnpackedFloat} {x : Float} (h : IsRounded q a)
    (hx : x.toModel.unpack = unpack Format.binary64 (pack Format.binary64 a)) : Rounded q x := by
  obtain ⟨m, e, hcanonical, hcontains, rfl⟩ := h
  refine ⟨m, e, hcanonical, hcontains, ?_⟩
  split_ifs with hmax
  · rw [hx, Decimal.unpack_pack hcanonical hmax]
  · rw [hx, Decimal.unpack_pack_of_lt hcanonical (not_le.mp hmax)]

/-- Rounding keeps the order. -/
theorem Rounded.le {p q : ℚ} {x y : Float} (hx : Rounded p x) (hy : Rounded q y) (hle : p ≤ q) :
    x ≤ y := by
  obtain ⟨m₁, e₁, h₁, hp, hunpack₁⟩ := hx
  obtain ⟨m₂, e₂, h₂, hq, hunpack₂⟩ := hy
  rw [← ofMagnitude_bitsOf h₁] at hp
  rw [← ofMagnitude_bitsOf h₂] at hq
  have hbits : bitsOf m₁ e₁ ≤ bitsOf m₂ e₂ := Interval.le_of_contains hp hq hle
  rw [le_iff]
  unfold order
  rw [hunpack₁, hunpack₂]
  by_cases hmax₂ : e₂ ≤ 971
  · -- the smaller one does not overflow either
    have hmax₁ : e₁ ≤ 971 := by
      by_contra hlarge
      have hlt := bitsOf_lt_of_exponent_lt h₂ h₁ (by omega)
      omega
    rw [if_pos hmax₁, if_pos hmax₂, compare_compose h₁ h₂]
    rcases hbits.lt_or_eq with hlt | heq
    · exact Or.inl (congrArg some (Nat.compare_eq_lt.mpr hlt))
    · exact Or.inr (congrArg some (Nat.compare_eq_eq.mpr heq))
  · rw [if_neg hmax₂]
    split_ifs
    · exact Or.inl (compare_compose_infinity m₁ e₁)
    · exact Or.inr rfl

/-- If rounding reverses the order of two magnitudes, they are in one interval. -/
theorem Rounded.le_or_same {p q : ℚ} {x y : Float} (hx : Rounded p x) (hy : Rounded q y)
    (hoverflow : q < Decimal.overflow) (hle : x ≤ y) : p ≤ q ∨ ∃ m e, IsCanonical m e ∧
      (intervalOf m e).Contains p ∧ (intervalOf m e).Contains q := by
  rcases le_or_gt p q with hpq | hqp
  · exact Or.inl hpq
  right
  obtain ⟨m₁, e₁, h₁, hp, hunpack₁⟩ := hx
  obtain ⟨m₂, e₂, h₂, hq, hunpack₂⟩ := hy
  -- if both overflowed, the intervals could differ
  have hmax₂ : e₂ ≤ 971 := by
    by_contra hlarge
    exact absurd (Decimal.overflow_le h₂ (not_le.mp hlarge) hq) (not_le.mpr hoverflow)
  rw [le_iff] at hle
  unfold order at hle
  rw [hunpack₁, hunpack₂, if_pos hmax₂] at hle
  rw [← ofMagnitude_bitsOf h₁] at hp
  rw [← ofMagnitude_bitsOf h₂] at hq
  have hge : bitsOf m₂ e₂ ≤ bitsOf m₁ e₁ := Interval.le_of_contains hq hp hqp.le
  have hbits : bitsOf m₁ e₁ ≤ bitsOf m₂ e₂ := by
    split_ifs at hle
    · rw [compare_compose h₁ h₂, Option.some_inj, Option.some_inj] at hle
      rcases hle with hlt | heq
      · exact (Nat.compare_eq_lt.mp hlt).le
      · exact (Nat.compare_eq_eq.mp heq).le
    · rw [compare_swap, compare_compose_infinity] at hle
      rcases hle with hlt | heq
      · cases hlt
      · cases heq
  refine ⟨m₂, e₂, h₂, ?_, ?_⟩
  · rw [← ofMagnitude_bitsOf h₂, ← hbits.antisymm hge]
    exact hp
  · rw [← ofMagnitude_bitsOf h₂]
    exact hq

/-! ## Exact numbers and distances -/

/-- A number lies in its own interval. -/
theorem contains_intervalOf_self (m : Nat) (e : Int) :
    (intervalOf m e).Contains (m * 2 ^ e) := by
  refine contains_intervalOf ⟨by linarith, by linarith, fun _ => ⟨by linarith, by linarith⟩⟩
    (Nat.cast_nonneg m) ?_
  intro hleast _
  rw [hleast]
  push_cast
  linarith

/-- A canonical number is rounded to itself. -/
theorem isRounded_compose {m : Nat} {e : Int} (h : IsCanonical m e) :
    IsRounded (m * 2 ^ e) (compose m e) :=
  ⟨m, e, h, contains_intervalOf_self m e, rfl⟩

/-- Nothing is rounded to zero. -/
theorem isRounded_zero : IsRounded 0 (.zero .positive) := by
  have h := isRounded_compose (m := 0) (e := -1074) ⟨by decide, le_rfl, Or.inr rfl⟩
  rw [Nat.cast_zero, zero_mul] at h
  exact h

/-- A magnitude is rounded to itself. -/
theorem isRounded_abs {a : UnpackedFloat} (h : Fits a) (hfinite : a.isFinite = true) :
    IsRounded |rational a| a.abs := by
  obtain ⟨m, e, hcanonical, -, habs, hvalue⟩ := exists_abs_eq_compose h hfinite
  rw [habs, hvalue]
  exact isRounded_compose hcanonical

theorem rounded_abs {x : Float} (h : x.isFinite = true) : Rounded |value x| x.abs := by
  refine rounded_of_isRounded (isRounded_abs (fits x) h) ?_
  rw [unpack_abs, unpack_pack_abs, unpack_pack_of_fits (fits x)]

/-- Shifting a mantissa to the left moves the exponent down, and what is rounded stays the same. -/
theorem isRounded_round {m : Nat} (e : Int) (hm : 0 < m) :
    IsRounded (m * 2 ^ e) (UnpackedFloat.round Format.binary64 .positive m e) := by
  -- the mantissa is shifted as far as its exponent is above the one that the format has for it
  have hshift : e - (e - exponentFor m e).toNat ≤ exponentFor m e := by omega
  have hvalue : (m * 2 ^ e : ℚ) = (m <<< (e - exponentFor m e).toNat : Nat) *
      2 ^ (e - (e - exponentFor m e).toNat) := by
    rw [Nat.shiftLeft_eq, zpow_sub₀ two_ne_zero, zpow_natCast]
    push_cast
    field_simp
  have hexponent : e - (e - exponentFor m e).toNat ≤ exponentFor
      (m <<< (e - exponentFor m e).toNat) (e - (e - exponentFor m e).toNat) := by
    have hlog : m.log2 + (e - exponentFor m e).toNat ≤
        (m <<< (e - exponentFor m e).toNat).log2 := by
      rw [Nat.shiftLeft_eq, Nat.le_log2 (Nat.mul_pos hm (Nat.two_pow_pos _)).ne', pow_add]
      exact Nat.mul_le_mul_right _ (Nat.log2_self_le hm.ne')
    refine hshift.trans (max_le_max ?_ le_rfl)
    omega
  unfold UnpackedFloat.round UnpackedFloat.decreaseExponent
  simp only [targetExponent_totalExponent]
  rw [hvalue]
  exact isRounded_roundWithAccuracy hexponent rfl

/-- A natural number of units is rounded once. -/
theorem isRounded_normalize {n : Int} (e : Int) (hn : 0 ≤ n) :
    IsRounded (n * 2 ^ e) (UnpackedFloat.normalize Format.binary64 n e .positive) := by
  unfold UnpackedFloat.normalize
  rcases hn.lt_or_eq with hpos | rfl
  · have hgt : compare n 0 = .gt := Int.compare_eq_gt.mpr hpos
    have hcast : ((n.toNat : Nat) : ℚ) = n := by
      exact_mod_cast congrArg (Int.cast (R := ℚ)) (Int.toNat_of_nonneg hn)
    rw [hgt, ← hcast]
    exact isRounded_round e (by omega)
  · rw [Int.cast_zero, zero_mul]
    exact isRounded_zero

/-- A mantissa that is shifted to a smaller exponent stands for the same. -/
theorem apply_shiftLeft (sign : Sign) (m : Nat) {e target : Int} (h : target ≤ e) :
    ((sign.apply (m <<< (e - target).toNat : Nat) : Int) : ℚ) * 2 ^ target =
      sign.apply m * 2 ^ e := by
  have hexponent : e = (e - target).toNat + target := by omega
  conv_rhs => rw [hexponent, zpow_add₀ two_ne_zero, zpow_natCast]
  cases sign <;> simp only [Sign.apply, Nat.shiftLeft_eq] <;> push_cast <;> ring

/-- The distance of finite numbers is rounded once. -/
theorem isRounded_abs_sub {a b : UnpackedFloat} (ha : Fits a) (hb : Fits b)
    (hfinite : a.isFinite = true) (hfinite' : b.isFinite = true) :
    IsRounded |rational a - rational b| (UnpackedFloat.sub Format.binary64 a b).abs := by
  cases a with
  | notANumber => cases hfinite
  | infinity s => cases hfinite
  | zero s =>
    have hzero : rational (.zero s) = 0 := rfl
    rw [abs_zero_sub _ s hfinite', hzero, zero_sub, abs_neg]
    exact isRounded_abs hb hfinite'
  | finite s m₁ e₁ h₁ =>
    cases b with
    | notANumber => cases hfinite'
    | infinity t => cases hfinite'
    | zero t =>
      have hzero : rational (.zero t) = 0 := rfl
      rw [abs_sub_swap, abs_zero_sub _ t hfinite, hzero, sub_zero]
      exact isRounded_abs ha hfinite
    | finite t m₂ e₂ h₂ =>
      unfold UnpackedFloat.sub UnpackedFloat.decreaseExponent
      simp only
      rw [abs_normalize]
      have hvalue : |rational (.finite s m₁ e₁ h₁) - rational (.finite t m₂ e₂ h₂)| =
          ((|s.apply (m₁ <<< (e₁ - min e₁ e₂).toNat : Nat) -
            t.apply (m₂ <<< (e₂ - min e₁ e₂).toNat : Nat)| : Int) : ℚ) * 2 ^ (min e₁ e₂) := by
        have hunit : |(2 : ℚ) ^ min e₁ e₂| = 2 ^ min e₁ e₂ := abs_of_pos (zpow_pos two_pos _)
        rw [rational_finite, rational_finite, ← apply_shiftLeft s m₁ (min_le_left e₁ e₂),
          ← apply_shiftLeft t m₂ (min_le_right e₁ e₂), ← sub_mul, abs_mul, hunit, Int.cast_abs,
          Int.cast_sub]
      rw [hvalue]
      exact isRounded_normalize _ (abs_nonneg _)

theorem rounded_abs_sub {x y : Float} (hx : x.isFinite = true) (hy : y.isFinite = true) :
    Rounded |value x - value y| (x - y).abs :=
  rounded_of_isRounded (isRounded_abs_sub (fits x) (fits y) hx hy) (unpack_abs_sub x y)

/-- A product with a number that has all of its bits is rounded once. -/
theorem isRounded_mul_compose {m₁ : Nat} (m₂ : Nat) (e₁ e₂ : Int) (h₁ : 0 < m₁)
    (hlarge : 2 ^ 52 ≤ m₁) :
    IsRounded (m₁ * 2 ^ e₁ * (m₂ * 2 ^ e₂))
      (UnpackedFloat.mul Format.binary64 (.finite .positive m₁ e₁ h₁) (compose m₂ e₂)) := by
  rcases Nat.eq_zero_or_pos m₂ with rfl | h₂
  · rw [Nat.cast_zero, zero_mul, mul_zero]
    exact isRounded_zero
  · rw [compose_eq h₂]
    exact Decimal.isRounded_mul e₁ e₂ h₁ h₂ (hlarge.trans (Nat.le_mul_of_pos_right m₁ h₂))

/-! ## Multiples of the least number -/

/-- The magnitude of a multiple of the least number. -/
theorem abs_mul_least (n : Int) :
    |(n * 2 ^ (-1074 : Int) : ℚ)| = n.natAbs * 2 ^ (-1074 : Int) := by
  have hunit : |(2 : ℚ) ^ (-1074 : Int)| = 2 ^ (-1074 : Int) := abs_of_pos (zpow_pos two_pos _)
  rw [abs_mul, hunit, Nat.cast_natAbs, Int.cast_abs]

/-- A finite number is a multiple of the least positive one. -/
theorem exists_value_eq {x : Float} (h : x.isFinite = true) :
    ∃ n : Int, value x = n * 2 ^ (-1074 : Int) := by
  have hfits := fits x
  have hfinite : x.toModel.unpack.isFinite = true := h
  unfold value
  revert hfits hfinite
  cases x.toModel.unpack with
  | notANumber => exact fun _ => nofun
  | infinity sign => exact fun _ => nofun
  | zero sign =>
    intro _ _
    refine ⟨0, ?_⟩
    rw [Int.cast_zero, zero_mul]
    rfl
  | finite sign m e hm =>
    intro hfits _
    refine ⟨sign.apply (m <<< (e - -1074).toNat : Nat), ?_⟩
    rw [apply_shiftLeft sign m hfits.1.le_exponent]
    rfl

/-- What an interval holds is at most half a unit above its number. -/
theorem le_add_half_of_contains {m : Nat} {e : Int} {p : ℚ} (hp : (intervalOf m e).Contains p) :
    p ≤ (m + 1 / 2) * 2 ^ e :=
  hp.le_stop.trans_eq (Interval.stop_of m e _)

/-- What an interval holds is at most half a unit below its number. -/
theorem sub_half_le_of_contains {m : Nat} {e : Int} {q : ℚ} (hm : 0 < m)
    (hq : (intervalOf m e).Contains q) : (m - 1 / 2) * 2 ^ e ≤ q := by
  refine le_trans (mul_le_mul_of_nonneg_right ?_ (zpow_pos two_pos e).le)
    ((Interval.start_of e _ hm).symm.trans_le hq.start_le)
  split <;> linarith

theorem nonneg_of_contains {m : Nat} {e : Int} {q : ℚ}
    (hq : (intervalOf m e).Contains q) : 0 ≤ q := by
  rcases Nat.eq_zero_or_pos m with rfl | hpos
  · exact (Decimal.start_intervalOf_zero e).symm.trans_le hq.start_le
  · have hone : (1 : ℚ) ≤ m := by exact_mod_cast hpos
    refine le_trans (mul_nonneg ?_ (zpow_pos two_pos e).le) (sub_half_le_of_contains hpos hq)
    linarith

/-- At the least exponent an interval holds one multiple of the least number, and none above it. -/
theorem le_of_contains_least {m k : Nat}
    (h : (intervalOf m (-1074)).Contains (k * 2 ^ (-1074 : Int))) : k ≤ m := by
  have hle := le_add_half_of_contains h
  rw [mul_le_mul_iff_left₀ (zpow_pos two_pos _)] at hle
  by_contra hlt
  have hsucc : (m + 1 : ℚ) ≤ k := by exact_mod_cast not_le.mp hlt
  linarith

/-- Two magnitudes in one interval are not far apart if the first is a multiple of the least number.
They are farthest apart in the interval of the least number itself. -/
theorem le_of_same_interval {m k : Nat} {e : Int} {p q : ℚ} (h : IsCanonical m e)
    (hp : (intervalOf m e).Contains p) (hq : (intervalOf m e).Contains q)
    (hk : p = k * 2 ^ (-1074 : Int)) :
    p ≤ 5 / 3 * q ∨ p = 2 ^ (-1074 : Int) ∧ 2 ^ (-1074 : Int) ≤ 2 * q := by
  rcases Nat.lt_or_ge 1 m with hlarge | hsmall
  · have hunit : (0 : ℚ) < 2 ^ e := zpow_pos two_pos e
    have htwo : (2 : ℚ) ≤ m := by exact_mod_cast hlarge
    have hstart := sub_half_le_of_contains (by omega) hq
    left
    calc p ≤ (m + 1 / 2) * 2 ^ e := le_add_half_of_contains hp
      _ ≤ 5 / 3 * (m - 1 / 2) * 2 ^ e := mul_le_mul_of_nonneg_right (by linarith) hunit.le
      _ = 5 / 3 * ((m - 1 / 2) * 2 ^ e) := by ring
      _ ≤ 5 / 3 * q := by linarith
  · -- the magnitude is zero or the least number itself
    obtain rfl : e = -1074 := h.normal.resolve_left (by omega)
    rw [hk] at hp
    have hle := le_of_contains_least hp
    rcases Nat.eq_zero_or_pos k with rfl | hpos
    · have hnonneg := nonneg_of_contains hq
      left
      rw [hk, Nat.cast_zero, zero_mul]
      linarith
    · obtain rfl : m = 1 := by omega
      obtain rfl : k = 1 := by omega
      have hstart := sub_half_le_of_contains Nat.one_pos hq
      right
      rw [hk, Nat.cast_one, one_mul]
      rw [Nat.cast_one] at hstart
      exact ⟨rfl, by linarith⟩

/-- Magnitudes of finite numbers compare as the rationals that they stand for. -/
theorem abs_lt_abs_iff {x y : Float} (hx : x.isFinite = true) (hy : y.isFinite = true) :
    x.abs < y.abs ↔ |value x| < |value y| := by
  constructor
  · intro hlt
    by_contra hle
    -- magnitudes are rounded to themselves, and rounding keeps the order
    have hge := (rounded_abs hy).le (rounded_abs hx) (not_lt.mp hle)
    rw [le_iff, order_swap, lt_iff.mp hlt] at hge
    rcases hge with hlt' | heq
    · cases hlt'
    · cases heq
  · intro hlt
    rcases le_iff.mp ((rounded_abs hx).le (rounded_abs hy) hlt.le) with horder | horder
    · exact lt_iff.mpr horder
    · have hsame : |value x| = |value y| := by
        unfold value
        rw [← rational_abs, ← rational_abs, ← unpack_abs, ← unpack_abs,
          unpack_abs_eq_of_order_eq horder]
      exact absurd hsame hlt.ne

end TradingRules.Double
