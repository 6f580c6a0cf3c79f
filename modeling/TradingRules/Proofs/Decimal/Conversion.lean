/-
# Digits become the nearest number

A decimal becomes a number of double precision by one rounding of its exact value: digits and the
power of ten are multiplied or divided as numbers that represent them exactly, or in one step on
integers. So the result is the nearest number, or infinity for what lies halfway beyond the largest
number and further.
-/
import TradingRules.Proofs.Decimal.Nearest
import TradingRules.Proofs.Decimal.Rounding

namespace TradingRules.Decimal

open Float.Model (UnpackedFloat Format)
open Float.Model.UnpackedFloat (Accuracy ExtendedMantissa Sign pack packComponents
  roundWithAccuracy unpack unpackExponent_packComponents unpackMantissa_packComponents
  unpackSign_packComponents)

/-! ## Packing -/

/-- The bits of a canonical number: the least 52 ones hold its mantissa without the leading bit. -/
def bitsOf (m : Nat) (e : Int) : Nat :=
  if m < 2 ^ 52 then m else (e + 1075).toNat * 2 ^ 52 + (m - 2 ^ 52)

theorem toNat_packComponents (exponent : BitVec 11) (mantissa : BitVec 52) :
    (packComponents Format.binary64 .positive exponent mantissa).toNat =
      exponent.toNat * 2 ^ 52 + mantissa.toNat := by
  show (Sign.toBitVec .positive ++ exponent ++ mantissa).toNat = _
  rw [BitVec.toNat_append, ← Nat.shiftLeft_add_eq_or_of_lt mantissa.isLt, Nat.shiftLeft_eq,
    BitVec.toNat_append, ← Nat.shiftLeft_add_eq_or_of_lt exponent.isLt]
  simp [Sign.toBitVec]

/-- How a number without a sign is packed: as infinity if its exponent is too large. -/
theorem pack_finite {m : Nat} (e : Int) (h : 0 < m) :
    pack Format.binary64 (.finite .positive m e h) =
      if 2 ^ 11 ≤ (e + 1075).toNat + 1 then packComponents Format.binary64 .positive (-1) 0
      else if m.log2 + 1 = 53 then
        packComponents Format.binary64 .positive (BitVec.ofNat 11 (e + 1075).toNat)
          (BitVec.ofNat 52 m)
      else packComponents Format.binary64 .positive 0 (BitVec.ofNat 52 m) := by
  have hbiased : e + (1023 : Nat) + (52 : Nat) = e + 1075 := by omega
  rw [← hbiased]
  rfl

/-- How a canonical number is packed, if it is no larger than the largest number. -/
theorem pack_compose {m : Nat} {e : Int} (h : IsCanonical m e) (hmax : e ≤ 971) :
    pack Format.binary64 (compose m e) =
      packComponents Format.binary64 .positive
        (BitVec.ofNat 11 (if m < 2 ^ 52 then 0 else (e + 1075).toNat)) (BitVec.ofNat 52 m) := by
  have hlt := h.lt
  have hexponent : ¬ 2 ^ 11 ≤ (e + 1075).toNat + 1 := by omega
  unfold compose
  split_ifs with hzero hsmall hsmall
  · subst hzero
    rfl
  · omega
  · have hlog : m.log2 + 1 ≠ 53 := by
      have := (Nat.log2_lt hzero).mpr hsmall
      omega
    rw [pack_finite, if_neg hexponent, if_neg hlog]
    rfl
  · have hlog : m.log2 + 1 = 53 := by
      have := (Nat.le_log2 hzero).mpr (Nat.le_of_not_lt hsmall)
      have := (Nat.log2_lt hzero).mpr hlt
      omega
    rw [pack_finite, if_neg hexponent, if_pos hlog]

/-- A larger number is packed as infinity. -/
theorem unpack_pack_of_lt {m : Nat} {e : Int} (h : IsCanonical m e) (hmax : 971 < e) :
    unpack Format.binary64 (pack Format.binary64 (compose m e)) = .infinity .positive := by
  have hzero : m ≠ 0 := by
    have := h.normal
    omega
  have hexponent : 2 ^ 11 ≤ (e + 1075).toNat + 1 := by omega
  unfold compose
  rw [dif_neg hzero, pack_finite, if_pos hexponent]
  rfl

/-- The bits of a canonical number. -/
theorem toNat_pack {m : Nat} {e : Int} (h : IsCanonical m e) (hmax : e ≤ 971) :
    (pack Format.binary64 (compose m e)).toNat = bitsOf m e := by
  have hlt := h.lt
  have hle := h.le_exponent
  rw [pack_compose h hmax, toNat_packComponents, BitVec.toNat_ofNat, BitVec.toNat_ofNat]
  unfold bitsOf
  split_ifs with hsmall <;> omega

theorem toNat_append_one (mantissa : BitVec 52) :
    (1#1 ++ mantissa).toNat = 2 ^ 52 + mantissa.toNat := by
  rw [BitVec.toNat_append, ← Nat.shiftLeft_add_eq_or_of_lt mantissa.isLt, Nat.shiftLeft_eq]
  rfl

/-- How the two parts of a finite number are unpacked. -/
theorem unpack_packComponents {biased fraction : Nat} (hbiased : biased < 2047)
    (hfraction : fraction < 2 ^ 52) :
    unpack Format.binary64 (packComponents Format.binary64 .positive (BitVec.ofNat 11 biased)
      (BitVec.ofNat 52 fraction)) =
      if biased = 0 then compose fraction (-1074)
      else compose (2 ^ 52 + fraction) (biased - 1075) := by
  have hexponent : (BitVec.ofNat 11 biased).toNat = biased := by
    rw [BitVec.toNat_ofNat, Nat.mod_eq_of_lt (by omega)]
  have hmantissa : (BitVec.ofNat 52 fraction).toNat = fraction := by
    rw [BitVec.toNat_ofNat, Nat.mod_eq_of_lt hfraction]
  have hones : BitVec.ofNat 11 biased ≠ -1#11 := by
    intro h
    have hmax : (-1#11).toNat = 2047 := rfl
    rw [← h, hexponent] at hmax
    omega
  unfold unpack
  simp only [unpackMantissa_packComponents, unpackExponent_packComponents,
    unpackSign_packComponents]
  rw [if_neg hones]
  by_cases hzero : biased = 0
  · subst hzero
    rw [if_pos rfl, if_pos rfl]
    split_ifs with hnil
    · rw [hnil] at hmantissa
      rw [← hmantissa]
      rfl
    · refine (compose_eq _).symm.trans ?_
      rw [hmantissa]
      rfl
  · have hfield : BitVec.ofNat 11 biased ≠ 0#11 := by
      intro h
      rw [h] at hexponent
      exact hzero hexponent.symm
    rw [if_neg hfield, if_neg hzero]
    refine (compose_eq _).symm.trans ?_
    rw [toNat_append_one, hmantissa, hexponent]
    rfl

/-- A canonical number is unpacked as it was packed. -/
theorem unpack_pack {m : Nat} {e : Int} (h : IsCanonical m e) (hmax : e ≤ 971) :
    unpack Format.binary64 (pack Format.binary64 (compose m e)) = compose m e := by
  have hlt := h.lt
  have hle := h.le_exponent
  rw [pack_compose h hmax]
  by_cases hsmall : m < 2 ^ 52
  · have he : e = -1074 := h.normal.resolve_left (Nat.not_le.mpr hsmall)
    rw [if_pos hsmall, unpack_packComponents (by decide) hsmall, if_pos rfl, he]
  · -- the leading bit of the mantissa does not fit into the field, and is put back by `unpack`
    have hmod : BitVec.ofNat 52 m = BitVec.ofNat 52 (m - 2 ^ 52) := by
      apply BitVec.eq_of_toNat_eq
      rw [BitVec.toNat_ofNat, BitVec.toNat_ofNat]
      omega
    have hm : 2 ^ 52 + (m - 2 ^ 52) = m := by omega
    have he : ((e + 1075).toNat : Int) - 1075 = e := by omega
    rw [if_neg hsmall, hmod, unpack_packComponents (by omega) (by omega), if_neg (by omega), hm, he]

/-! ## Rounded numbers -/

/-- The least magnitude that no finite number is rounded from. -/
def overflow : ℚ := 2 ^ 1024 - 2 ^ 970

/-- A number of double precision is what a magnitude is correctly rounded to: the nearest one, if
the magnitude does not overflow, and no finite one otherwise. -/
structure IsCorrectlyRounded (x : ℚ) (y : Float) : Prop where
  isFinite_iff : y.isFinite = true ↔ x < overflow
  isNearest : y.isFinite = true → IsNearest x y

/-- The bits of a canonical number lie below those of infinity, if it is no larger than the largest
number. -/
theorem bitsOf_lt {m : Nat} {e : Int} (h : IsCanonical m e) (hmax : e ≤ 971) :
    bitsOf m e < infinityBits := by
  have hlt := h.lt
  have hle := h.le_exponent
  unfold bitsOf infinityBits
  split_ifs <;> omega

/-- The interval of a canonical number is that of its bits. -/
theorem ofMagnitude_bitsOf {m : Nat} {e : Int} (h : IsCanonical m e) :
    Interval.ofMagnitude (bitsOf m e) = intervalOf m e := by
  have hlt := h.lt
  have hle := h.le_exponent
  unfold bitsOf Interval.ofMagnitude intervalOf Interval.ofFields
  by_cases hsmall : m < 2 ^ 52
  · have he : e = -1074 := h.normal.resolve_left (Nat.not_le.mpr hsmall)
    have hdiv : m / 2 ^ 52 = 0 := Nat.div_eq_of_lt hsmall
    have hmod : m % 2 ^ 52 = m := Nat.mod_eq_of_lt hsmall
    rw [if_pos hsmall, if_pos hdiv, hmod, he, decide_eq_false (lt_irrefl (-1074 : Int)),
      Bool.and_false]
  · have hdiv : ((e + 1075).toNat * 2 ^ 52 + (m - 2 ^ 52)) / 2 ^ 52 = (e + 1075).toNat := by omega
    have hmod : ((e + 1075).toNat * 2 ^ 52 + (m - 2 ^ 52)) % 2 ^ 52 = m - 2 ^ 52 := by omega
    have hm : 2 ^ 52 + (m - 2 ^ 52) = m := by omega
    have he : ((e + 1075).toNat : Int) - 1075 = e := by omega
    have hnarrow : (m - 2 ^ 52 == 0 && decide ((e + 1075).toNat > 1)) =
        (m == 2 ^ 52 && decide (-1074 < e)) := by
      rw [Bool.eq_iff_iff, Bool.and_eq_true, Bool.and_eq_true, beq_iff_eq, beq_iff_eq,
        decide_eq_true_eq, decide_eq_true_eq]
      omega
    rw [if_neg hsmall, hdiv, hmod, if_neg (by omega), hm, he, hnarrow]

theorem overflow_eq : overflow = (2 ^ 53 - 1 / 2) * 2 ^ (971 : Int) := by
  have hhigh : (2 : ℚ) ^ 1024 = 2 ^ 54 * 2 ^ 970 := by rw [← pow_add]
  have hscale : (2 : ℚ) ^ (971 : Int) = 2 ^ 970 * 2 := (zpow_natCast 2 971).trans (pow_succ 2 970)
  unfold overflow
  rw [hhigh, hscale]
  generalize (2 : ℚ) ^ 970 = unit
  ring

/-- What lies in the interval of a finite number does not overflow. -/
theorem lt_overflow {m : Nat} {e : Int} {x : ℚ} (h : IsCanonical m e) (hmax : e ≤ 971)
    (hx : (intervalOf m e).Contains x) : x < overflow := by
  have hstop : (intervalOf m e).stop = (m + 1 / 2) * 2 ^ e := Interval.stop_of m e _
  have hunit : (0 : ℚ) < 2 ^ e := zpow_pos two_pos e
  have hscale : ((2 : ℚ) ^ 53 - 1 / 2) * 2 ^ e ≤ overflow := by
    rw [overflow_eq]
    refine mul_le_mul_of_nonneg_left (zpow_le_zpow_right₀ one_le_two hmax) ?_
    norm_num
  by_cases hlast : m = 2 ^ 53 - 1
  · -- the last mantissa is odd, so that its interval does not hold its end
    have hopen : (intervalOf m e).closed = false := by
      show (m % 2 == 0) = false
      rw [hlast]
      rfl
    have hend : (m + 1 / 2 : ℚ) = 2 ^ 53 - 1 / 2 := by
      rw [hlast]
      norm_num
    have hlt := (hx.inside hopen).2
    rw [hstop, hend] at hlt
    exact hlt.trans_le hscale
  · have hm : m + 2 ≤ 2 ^ 53 := by
      have := h.lt
      omega
    have hm' : (m + 2 : ℚ) ≤ 2 ^ 53 := by exact_mod_cast hm
    have hle := hx.le_stop
    rw [hstop] at hle
    refine hle.trans_lt (lt_of_lt_of_le (mul_lt_mul_of_pos_right ?_ hunit) hscale)
    linarith

/-- What lies in the interval of a larger number overflows. -/
theorem overflow_le {m : Nat} {e : Int} {x : ℚ} (h : IsCanonical m e) (hmax : 971 < e)
    (hx : (intervalOf m e).Contains x) : overflow ≤ x := by
  have hnormal : 2 ^ 52 ≤ m := h.normal.resolve_right (by omega)
  have hnormal' : (2 ^ 52 : ℚ) ≤ m := by exact_mod_cast hnormal
  have hstart : (intervalOf m e).start =
      (m - if (m == 2 ^ 52 && decide (-1074 < e)) = true then 1 / 4 else 1 / 2) * 2 ^ e :=
    Interval.start_of e _ (by omega)
  -- the least mantissa has the interval that begins lowest, a quarter below it
  have hbelow : (2 ^ 52 - 1 / 4 : ℚ) ≤
      m - if (m == 2 ^ 52 && decide (-1074 < e)) = true then 1 / 4 else 1 / 2 := by
    split_ifs with hnarrow
    · linarith
    · have hne : m ≠ 2 ^ 52 := by
        rintro rfl
        rw [decide_eq_true (by omega : -1074 < e)] at hnarrow
        exact hnarrow rfl
      have hsucc : (2 ^ 52 + 1 : ℚ) ≤ m := by exact_mod_cast (by omega : 2 ^ 52 + 1 ≤ m)
      linarith
  have hscale : overflow ≤ (2 ^ 52 - 1 / 4) * 2 ^ e := by
    have hstep : (2 : ℚ) ^ (972 : Int) = 2 ^ (971 : Int) * 2 := zpow_add_one₀ two_ne_zero 971
    calc overflow = (2 ^ 52 - 1 / 4) * 2 ^ (972 : Int) := by
          rw [overflow_eq, hstep]
          ring
      _ ≤ (2 ^ 52 - 1 / 4) * 2 ^ e :=
          mul_le_mul_of_nonneg_left (zpow_le_zpow_right₀ one_le_two hmax) (by norm_num)
  have hunit : (0 : ℚ) ≤ 2 ^ e := (zpow_pos two_pos e).le
  calc overflow ≤ (2 ^ 52 - 1 / 4) * 2 ^ e := hscale
    _ ≤ (intervalOf m e).start := hstart ▸ mul_le_mul_of_nonneg_right hbelow hunit
    _ ≤ x := hx.start_le

/-- A rounded number is packed as what its magnitude is correctly rounded to. -/
theorem IsRounded.isCorrectlyRounded {x : ℚ} {a : UnpackedFloat} (h : IsRounded x a) :
    IsCorrectlyRounded x (.ofModel (Float.Model.pack a)) := by
  obtain ⟨m, e, hcanonical, hx, rfl⟩ := h
  have hbits : (Float.ofModel (Float.Model.pack (compose m e))).toBits.toNat =
      (pack Format.binary64 (compose m e)).toNat := rfl
  have hfinite : (Float.ofModel (Float.Model.pack (compose m e))).isFinite =
      (unpack Format.binary64 (pack Format.binary64 (compose m e))).isFinite := rfl
  by_cases hmax : e ≤ 971
  · rw [toNat_pack hcanonical hmax] at hbits
    rw [unpack_pack hcanonical hmax] at hfinite
    have htrue : (compose m e).isFinite = true := by
      unfold compose
      split_ifs <;> rfl
    constructor
    · rw [hfinite, htrue]
      exact ⟨fun _ => lt_overflow hcanonical hmax hx, fun _ => rfl⟩
    · -- the interval of the packed bits is the one that the magnitude was rounded in
      intro _
      refine isNearest_of_contains (hbits ▸ bitsOf_lt hcanonical hmax) ?_
      rw [hbits, ofMagnitude_bitsOf hcanonical]
      exact hx
  · rw [unpack_pack_of_lt hcanonical (not_le.mp hmax)] at hfinite
    have hle := overflow_le hcanonical (not_le.mp hmax) hx
    constructor
    · rw [hfinite]
      exact ⟨nofun, fun h => absurd h (not_lt.mpr hle)⟩
    · rw [hfinite]
      exact nofun

/-! ## Digits with a power of ten -/

/-- A mantissa of 53 bits is rounded to itself. -/
theorem roundWithAccuracy_of_normal {m : Nat} {e : Int} (hlow : 2 ^ 52 ≤ m) (hlt : m < 2 ^ 53)
    (he : -1074 ≤ e) : roundWithAccuracy Format.binary64 .positive m e .exact = compose m e := by
  have hne : m ≠ 0 := Nat.ne_zero_of_lt hlow
  have hexponent : exponentFor m e = e := by
    have hlog := (Nat.le_log2 hne).mpr hlow
    exact le_antisymm (exponentFor_le hlt he) (le_max_of_le_left (by omega))
  have hrounded : roundedAt m e .exact = m := by
    unfold roundedAt
    rw [hexponent, sub_self]
    rfl
  rw [roundWithAccuracy_eq .exact hexponent.ge, hrounded, hexponent, if_neg hlt.ne]

/-- A natural number with at most 53 bits is converted by shifting it. -/
theorem ofNat_eq {n : Nat} (hpos : 0 < n) (hlt : n < 2 ^ 53) :
    IsCanonical (n * 2 ^ (52 - n.log2)) (-(52 - n.log2 : Nat)) ∧ 2 ^ 52 ≤ n * 2 ^ (52 - n.log2) ∧
      UnpackedFloat.ofNat Format.binary64 n =
        compose (n * 2 ^ (52 - n.log2)) (-(52 - n.log2 : Nat)) := by
  have hlog : n.log2 ≤ 52 := log2_le hlt
  have hlow : 2 ^ 52 ≤ n * 2 ^ (52 - n.log2) := by
    calc 2 ^ 52 = 2 ^ n.log2 * 2 ^ (52 - n.log2) := by rw [← pow_add, Nat.add_sub_cancel' hlog]
      _ ≤ n * 2 ^ (52 - n.log2) := Nat.mul_le_mul_right _ (Nat.log2_self_le hpos.ne')
  have hhigh : n * 2 ^ (52 - n.log2) < 2 ^ 53 := by
    calc n * 2 ^ (52 - n.log2) < 2 ^ (n.log2 + 1) * 2 ^ (52 - n.log2) :=
          Nat.mul_lt_mul_of_pos_right Nat.lt_log2_self (Nat.two_pow_pos _)
      _ = 2 ^ 53 := by rw [← pow_add]; congr 1; omega
  have hexponent : exponentFor n 0 = -(52 - n.log2 : Nat) := by
    unfold exponentFor
    rw [max_eq_left (by omega)]
    omega
  have hshift : (-exponentFor n 0).toNat = 52 - n.log2 := by omega
  refine ⟨⟨hhigh, by omega, Or.inl hlow⟩, hlow, ?_⟩
  rw [← roundWithAccuracy_of_normal hlow hhigh (by omega)]
  unfold UnpackedFloat.ofNat UnpackedFloat.ofInt UnpackedFloat.normalize
  have hcompare : compare (n : Int) 0 = .gt := Int.compare_eq_gt.mpr (by omega)
  rw [hcompare]
  unfold UnpackedFloat.round UnpackedFloat.decreaseExponent
  simp only [targetExponent_totalExponent, Int.toNat_natCast, Nat.shiftLeft_eq, zero_sub, hshift]

/-- An unpacked number represents a magnitude exactly, with all of its 53 bits. -/
def Represents (x : ℚ) (a : UnpackedFloat) : Prop :=
  ∃ m e, ∃ hm : 0 < m, 2 ^ 52 ≤ m ∧ a = .finite .positive m e hm ∧ x = m * 2 ^ e

/-- A product of numbers that are represented exactly is rounded once. -/
theorem Represents.mul {x y : ℚ} {a b : UnpackedFloat} (ha : Represents x a) (hb : Represents y b) :
    IsRounded (x * y) (UnpackedFloat.mul Format.binary64 a b) := by
  obtain ⟨m₁, e₁, h₁, hm₁, rfl, rfl⟩ := ha
  obtain ⟨m₂, e₂, h₂, -, rfl, rfl⟩ := hb
  exact isRounded_mul e₁ e₂ h₁ h₂ (hm₁.trans (Nat.le_mul_of_pos_right m₁ h₂))

/-- A quotient of numbers that are represented exactly is rounded once. -/
theorem Represents.div {x y : ℚ} {a b : UnpackedFloat} (ha : Represents x a) (hb : Represents y b) :
    IsRounded (x / y) (UnpackedFloat.div Format.binary64 a b) := by
  obtain ⟨m₁, e₁, h₁, -, rfl, rfl⟩ := ha
  obtain ⟨m₂, e₂, h₂, -, rfl, rfl⟩ := hb
  exact isRounded_div e₁ e₂ h₁ h₂

/-- A natural number with at most 53 bits is represented exactly. -/
theorem represents_toFloat {n : Nat} (hpos : 0 < n) (hlt : n < 2 ^ 53) :
    Represents n n.toUInt64.toFloat.toModel.unpack := by
  have hnat : n.toUInt64.toNat = n := UInt64.toNat_ofNat_of_lt' (by
    show n < 2 ^ 64
    omega)
  have hunpack : n.toUInt64.toFloat.toModel.unpack =
      unpack Format.binary64
        (pack Format.binary64 (UnpackedFloat.ofNat Format.binary64 n.toUInt64.toNat)) := rfl
  obtain ⟨hcanonical, hlow, hconvert⟩ := ofNat_eq hpos hlt
  have hm : 0 < n * 2 ^ (52 - n.log2) := Nat.lt_of_lt_of_le (by decide) hlow
  refine ⟨_, -(52 - n.log2 : Nat), hm, hlow, ?_, ?_⟩
  · rw [hunpack, hnat, hconvert, unpack_pack hcanonical (by omega), compose_eq hm]
  · rw [zpow_neg, zpow_natCast]
    push_cast
    field_simp

/-- A power of ten as it is represented exactly, in terms of natural numbers. -/
def IsPowerOfTen (k : Nat) : UnpackedFloat → Prop
  | .finite .positive m e _ => 2 ^ 52 ≤ m ∧ -52 ≤ e ∧ m * 2 ^ (e + 52).toNat = 10 ^ k * 2 ^ 52
  | _ => False

instance (k : Nat) : DecidablePred (IsPowerOfTen k) := fun a => by
  unfold IsPowerOfTen
  split <;> infer_instance

theorem IsPowerOfTen.represents {k : Nat} {a : UnpackedFloat} (h : IsPowerOfTen k a) :
    Represents (10 ^ k) a := by
  unfold IsPowerOfTen at h
  split at h
  · rename_i m e hm
    obtain ⟨hlow, he, hvalue⟩ := h
    refine ⟨m, e, hm, hlow, rfl, ?_⟩
    have hexponent : ((e + 52).toNat : Int) = e + 52 := by omega
    have hvalue' : (m : ℚ) * 2 ^ (e + 52).toNat = 10 ^ k * 2 ^ 52 := by exact_mod_cast hvalue
    rw [← zpow_natCast, hexponent, zpow_add₀ two_ne_zero] at hvalue'
    have hscale : (2 : ℚ) ^ (52 : Int) = 2 ^ 52 := zpow_natCast 2 52
    rw [hscale, ← mul_assoc] at hvalue'
    exact (mul_right_cancel₀ (by positivity) hvalue').symm
  · exact h.elim

theorem isPowerOfTen_power : ∀ i : Fin Float.exactlyRepresentablePowersOfTen.size,
    IsPowerOfTen i Float.exactlyRepresentablePowersOfTen[i].toModel.unpack := by
  decide +kernel

/-- The powers of ten that are kept are represented exactly. -/
theorem represents_power {k : Nat} (h : k < Float.exactlyRepresentablePowersOfTen.size) :
    Represents (10 ^ k) Float.exactlyRepresentablePowersOfTen[k].toModel.unpack :=
  (isPowerOfTen_power ⟨k, h⟩).represents

/-- Digits are scaled by a power of ten in one rounding. -/
theorem isRounded_ofScientific {m : Nat} {e : Int} (hm : m ≠ 0) (hhigh : e ≤ 2048)
    (hlow : -(2048 + m.log2 : Int) ≤ e) :
    IsRounded (m * 10 ^ e) (UnpackedFloat.ofScientific Format.binary64 m e) := by
  have hpos : 0 < m := Nat.pos_of_ne_zero hm
  have hhigh' : ¬ e > 2 ^ Format.binary64.exponentBits := by
    show ¬ e > 2 ^ 11
    omega
  have hlow' : ¬ e < -((2 ^ Format.binary64.exponentBits : Int) + m.log2) := by
    show ¬ e < -((2 ^ 11 : Int) + m.log2)
    omega
  unfold UnpackedFloat.ofScientific
  rw [dif_neg hm, if_neg hhigh', if_neg hlow']
  split_ifs with hsign
  · -- the digits are shifted first, so that the product has bits enough to be rounded
    have hlarge : 2 ^ 52 ≤ (m <<< 53) * 10 ^ e.toNat := by
      rw [Nat.shiftLeft_eq]
      calc 2 ^ 52 ≤ m * 2 ^ 53 := by omega
        _ ≤ m * 2 ^ 53 * 10 ^ e.toNat := Nat.le_mul_of_pos_right _ (Nat.pow_pos (by decide))
    have hvalue : (m * 10 ^ e : ℚ) =
        (m <<< 53 : Nat) * 2 ^ (-53 : Int) * ((10 ^ e.toNat : Nat) * 2 ^ (0 : Int)) := by
      have hexponent : (e.toNat : Int) = e := Int.toNat_of_nonneg hsign
      have hcancel : (2 : ℚ) ^ 53 * 2 ^ (-53 : Int) = 1 := by norm_num
      rw [Nat.shiftLeft_eq, ← hexponent, Int.toNat_natCast, zpow_natCast, zpow_zero, mul_one,
        Nat.cast_mul, Nat.cast_pow, Nat.cast_pow, Nat.cast_ofNat, Nat.cast_ofNat,
        mul_assoc (m : ℚ), hcancel, mul_one]
    rw [hvalue]
    exact isRounded_mul _ _ _ _ hlarge
  · have hvalue : (m * 10 ^ e : ℚ) =
        m * 2 ^ (0 : Int) / ((10 ^ (-e).toNat : Nat) * 2 ^ (0 : Int)) := by
      have hexponent : e = -((-e).toNat : Int) := by omega
      rw [zpow_zero, mul_one, mul_one, Nat.cast_pow, Nat.cast_ofNat]
      conv_lhs => rw [hexponent, zpow_neg, zpow_natCast]
      rw [div_eq_mul_inv]
    rw [hvalue]
    exact isRounded_div _ _ _ _

/-- The library's conversion of digits with a power of ten is correctly rounded. -/
theorem isCorrectlyRounded_ofScientific {m : Nat} {e : Int} (hm : m ≠ 0) (hhigh : e ≤ 2048)
    (hlow : -(2048 + m.log2 : Int) ≤ e) :
    IsCorrectlyRounded (m * 10 ^ e) (Float.ofScientific m (e < 0) e.natAbs) := by
  unfold Float.ofScientific
  split
  · -- few digits and a small power of ten are both numbers, so that one operation rounds once
    rename_i hsmall
    have hdigits := represents_toFloat (Nat.pos_of_ne_zero hm) hsmall.1
    have hkept : e.natAbs < Float.exactlyRepresentablePowersOfTen.size := by
      show e.natAbs < 23
      omega
    have hpower := represents_power hkept
    simp only [decide_eq_true_eq]
    split_ifs with hsign
    · have hvalue : (m * 10 ^ e : ℚ) = m / 10 ^ e.natAbs := by
        have hexponent : e = -(e.natAbs : Int) := by omega
        conv_lhs => rw [hexponent, zpow_neg, zpow_natCast]
        rw [div_eq_mul_inv]
      rw [hvalue]
      exact (hdigits.div hpower).isCorrectlyRounded
    · have hvalue : (m * 10 ^ e : ℚ) = m * 10 ^ e.natAbs := by
        have hexponent : e = (e.natAbs : Int) := by omega
        conv_lhs => rw [hexponent, zpow_natCast]
      rw [hvalue]
      exact (hdigits.mul hpower).isCorrectlyRounded
  · have hexponent : (if decide (e < 0) = true then Int.negOfNat e.natAbs else Int.ofNat e.natAbs) =
        e := by
      rw [Int.negOfNat_eq]
      split_ifs with hsign
      · rw [decide_eq_true_eq] at hsign
        exact (by omega : -(e.natAbs : Int) = e)
      · rw [decide_eq_true_eq] at hsign
        exact (by omega : (e.natAbs : Int) = e)
    simp only [hexponent]
    exact (isRounded_ofScientific hm hhigh hlow).isCorrectlyRounded

/-- A magnitude below half of the least number is rounded to zero. -/
theorem isCorrectlyRounded_zero {x : ℚ} (hx : 0 ≤ x) (hlt : x ≤ 2 ^ (-1075 : Int)) :
    IsCorrectlyRounded x 0.0 := by
  have hstop : (intervalOf 0 (-1074)).stop = 2 ^ (-1075 : Int) := by
    have hstep : (2 : ℚ) ^ (-1074 : Int) = 2 ^ (-1075 : Int) * 2 :=
      zpow_add_one₀ two_ne_zero (-1075)
    rw [intervalOf, Interval.stop_of, hstep]
    generalize (2 : ℚ) ^ (-1075 : Int) = unit
    push_cast
    ring
  have hcontains : (intervalOf 0 (-1074)).Contains x :=
    ⟨(start_intervalOf_zero _).trans_le hx, hlt.trans_eq hstop.symm, nofun⟩
  have h : IsRounded x (compose 0 (-1074)) :=
    ⟨0, -1074, ⟨by decide, le_rfl, Or.inr rfl⟩, hcontains, rfl⟩
  have hbits : (0.0 : Float) = .ofModel (Float.Model.pack (compose 0 (-1074))) :=
    Float.toBits_inj.mp (by decide +kernel)
  rw [hbits]
  exact h.isCorrectlyRounded

/-- What overflows is rounded to infinity. -/
theorem isCorrectlyRounded_infinity {x : ℚ} (hx : overflow ≤ x) :
    IsCorrectlyRounded x (1.0 / 0.0) := by
  have hinfinite : ((1.0 : Float) / 0.0).isFinite = false := by decide +kernel
  constructor
  · rw [hinfinite]
    exact ⟨nofun, fun hlt => absurd hlt (not_lt.mpr hx)⟩
  · rw [hinfinite]
    exact nofun

/-- A power of ten beyond those of two that matter. -/
theorem two_pow_le_ten_pow : (2 : ℚ) ^ 1203 ≤ 10 ^ 401 := by
  have hcube : (2 : ℚ) ^ 1203 = (2 ^ 3) ^ 401 := pow_mul 2 3 401
  rw [hcube]
  exact pow_le_pow_left₀ (by norm_num) (by norm_num) 401

/-- Digits with a large exponent overflow. -/
theorem overflow_le_of_large {digits : Nat} {exponent : Int} (hdigits : digits ≠ 0)
    (hlarge : 400 < exponent) : overflow ≤ digits * 10 ^ exponent := by
  have hone : (1 : ℚ) ≤ digits := by exact_mod_cast Nat.pos_of_ne_zero hdigits
  calc overflow ≤ 2 ^ 1024 := sub_le_self _ (by positivity)
    _ ≤ 2 ^ 1203 := pow_le_pow_right₀ one_le_two (by decide)
    _ ≤ 10 ^ 401 := two_pow_le_ten_pow
    _ = (10 : ℚ) ^ (401 : Int) := (zpow_natCast 10 401).symm
    _ ≤ 10 ^ exponent := zpow_le_zpow_right₀ (by norm_num) hlarge
    _ ≤ digits * 10 ^ exponent := le_mul_of_one_le_left (by positivity) hone

/-- Digits with a very negative exponent vanish. -/
theorem le_of_small {digits : Nat} {exponent : Int}
    (hsmall : exponent + digits.log2 + 1 < -400) :
    (digits * 10 ^ exponent : ℚ) ≤ 2 ^ (-1075 : Int) := by
  have hdigits : (digits : ℚ) ≤ 10 ^ (digits.log2 + 1) := by
    calc (digits : ℚ) ≤ (2 ^ (digits.log2 + 1) : Nat) := by exact_mod_cast Nat.lt_log2_self.le
      _ = 2 ^ (digits.log2 + 1) := by push_cast; rfl
      _ ≤ 10 ^ (digits.log2 + 1) := pow_le_pow_left₀ (by norm_num) (by norm_num) _
  have hinv : ((10 : ℚ) ^ 401)⁻¹ ≤ (2 ^ 1203)⁻¹ :=
    inv_anti₀ (by positivity) two_pow_le_ten_pow
  calc (digits * 10 ^ exponent : ℚ)
      ≤ 10 ^ (digits.log2 + 1) * 10 ^ exponent :=
        mul_le_mul_of_nonneg_right hdigits (by positivity)
    _ = 10 ^ (exponent + digits.log2 + 1) := by
        rw [← zpow_natCast, ← zpow_add₀ (by norm_num)]
        congr 1
        push_cast
        ring
    _ ≤ 10 ^ (-401 : Int) := zpow_le_zpow_right₀ (by norm_num) (by omega)
    _ = ((10 : ℚ) ^ 401)⁻¹ := by rw [zpow_neg]; exact congrArg _ (zpow_natCast 10 401)
    _ ≤ (2 ^ 1203)⁻¹ := hinv
    _ = 2 ^ (-1203 : Int) := by rw [zpow_neg]; exact congrArg _ (zpow_natCast 2 1203).symm
    _ ≤ 2 ^ (-1075 : Int) := zpow_le_zpow_right₀ one_le_two (by decide)

/-- The number that is read off digits is correctly rounded. -/
theorem isCorrectlyRounded_nearest (digits : Nat) (exponent : Int) :
    IsCorrectlyRounded (value ⟨digits, exponent⟩) (nearest digits exponent) := by
  have hnonneg : 0 ≤ value ⟨digits, exponent⟩ :=
    mul_nonneg (Nat.cast_nonneg _) (zpow_nonneg (by norm_num) _)
  unfold nearest
  split_ifs with hzero hlarge hsmall
  · have hvalue : value ⟨digits, exponent⟩ = 0 := by
      rw [hzero, value, Nat.cast_zero, zero_mul]
    exact isCorrectlyRounded_zero hnonneg (hvalue.trans_le (zpow_nonneg two_pos.le _))
  · exact isCorrectlyRounded_infinity (overflow_le_of_large hzero hlarge)
  · exact isCorrectlyRounded_zero hnonneg (le_of_small hsmall)
  · have hlow : -(2048 + digits.log2 : Int) ≤ exponent := by omega
    have hhigh : exponent ≤ 2048 := by omega
    exact isCorrectlyRounded_ofScientific hzero hhigh hlow

/-! ## Digits around a point -/

open TradingRules.Text (digitsValue)

/-- The number that the digits around a point stand for. -/
def numeralValue (whole fraction : List Char) : ℚ :=
  digitsValue (whole ++ fraction) / 10 ^ fraction.length

theorem value_eq_numeralValue (whole fraction : List Char) :
    value ⟨digitsValue (whole ++ fraction), 0 - fraction.length⟩ = numeralValue whole fraction := by
  rw [value, numeralValue, zero_sub, zpow_neg, zpow_natCast, div_eq_mul_inv]

end TradingRules.Decimal
