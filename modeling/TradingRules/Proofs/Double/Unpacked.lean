/-
# Unpacked numbers

A number of double precision is worked on in its unpacked form, and what comes out is packed. Packing
and unpacking keep what the format can hold, and go along with a change of the sign: so a negated
number and a magnitude have the unpacked forms that one expects.
-/
import TradingRules.Proofs.Decimal.Conversion

namespace TradingRules.Double

open Float.Model (UnpackedFloat Format)
open Float.Model.UnpackedFloat (Sign pack packComponents unpack unpackExponent
  unpackExponent_packComponents unpackMantissa unpackMantissa_packComponents
  unpackSign_packComponents)
open TradingRules.Decimal (IsCanonical compose compose_eq unsigned unsigned_unpack unpackSign_pack)

/-! ## Signs -/

theorem ofBitVec_toBitVec (sign : Sign) : Sign.ofBitVec sign.toBitVec = sign := by
  cases sign <;> rfl

theorem abs_negated (a : UnpackedFloat) : a.neg.abs = a.abs := by
  cases a <;> rfl

theorem unsigned_abs (a : UnpackedFloat) : unsigned a.abs = true := by
  cases a <;> rfl

/-- What has no sign is its own magnitude. -/
theorem abs_of_unsigned {a : UnpackedFloat} (h : unsigned a = true) : a.abs = a := by
  cases a with
  | notANumber => rfl
  | infinity sign => cases sign <;> first | rfl | cases h
  | zero sign => cases sign <;> first | rfl | cases h
  | finite sign m e hm => cases sign <;> first | rfl | cases h

/-- The magnitude of a number is the number or the negated number. -/
theorem abs_eq_or (a : UnpackedFloat) : a.abs = a ∨ a.abs = a.neg := by
  cases a with
  | notANumber => exact Or.inl rfl
  | infinity sign => cases sign <;> first | exact Or.inl rfl | exact Or.inr rfl
  | zero sign => cases sign <;> first | exact Or.inl rfl | exact Or.inr rfl
  | finite sign m e hm => cases sign <;> first | exact Or.inl rfl | exact Or.inr rfl

/-! ## Packing under a change of the sign -/

/-- The same components with the other sign are unpacked as the negated number. -/
theorem unpack_packComponents_neg (sign : Sign) (exponent : BitVec 11) (mantissa : BitVec 52) :
    unpack Format.binary64 (packComponents Format.binary64 (-sign) exponent mantissa) =
      (unpack Format.binary64 (packComponents Format.binary64 sign exponent mantissa)).neg := by
  unfold unpack
  simp only [unpackMantissa_packComponents, unpackExponent_packComponents,
    unpackSign_packComponents, ofBitVec_toBitVec]
  split_ifs <;> rfl

/-- A negated number is packed as the number with the other sign. -/
theorem unpack_pack_neg (a : UnpackedFloat) :
    unpack Format.binary64 (pack Format.binary64 a.neg) =
      (unpack Format.binary64 (pack Format.binary64 a)).neg := by
  cases a with
  | notANumber => rfl
  | infinity sign => exact unpack_packComponents_neg sign _ _
  | zero sign => exact unpack_packComponents_neg sign _ _
  | finite sign m e hm =>
    unfold UnpackedFloat.neg pack
    simp only
    split_ifs
    · exact unpack_packComponents_neg sign _ _
    · exact unpack_packComponents_neg sign _ _
    · exact unpack_packComponents_neg sign _ _

/-- A magnitude is packed as the number without its sign. -/
theorem unpack_pack_abs (a : UnpackedFloat) :
    unpack Format.binary64 (pack Format.binary64 a.abs) =
      (unpack Format.binary64 (pack Format.binary64 a)).abs := by
  have hplain : (unpack Format.binary64 (pack Format.binary64 a.abs)).abs =
      unpack Format.binary64 (pack Format.binary64 a.abs) :=
    abs_of_unsigned (unsigned_unpack (unpackSign_pack (unsigned_abs a)))
  -- packing a magnitude gives no sign, so both sides are magnitudes
  rw [← hplain]
  rcases abs_eq_or a with habs | habs
  · rw [habs]
  · rw [habs, unpack_pack_neg, abs_negated]

/-! ## What the format holds -/

/-- An unpacked number that the format holds: its mantissa and exponent, if it has them, are those of
a number of double precision. -/
def Fits : UnpackedFloat → Prop
  | .finite _ m e _ => IsCanonical m e ∧ e ≤ 971
  | .infinity _ | .zero _ | .notANumber => True

/-- What is unpacked fits. -/
theorem fits_unpack (bits : BitVec Format.binary64.numBits) : Fits (unpack Format.binary64 bits) := by
  have hbias : (Format.binary64.exponentBias : Int) + Format.binary64.mantissaBitsWithoutImplicit =
      1075 := rfl
  have hmantissa : (unpackMantissa bits).toNat < 2 ^ 52 := (unpackMantissa bits).isLt
  have hexponent : (unpackExponent bits).toNat < 2048 := (unpackExponent bits).isLt
  unfold unpack
  simp only [hbias]
  split_ifs with hones hnil hzero hnil
  · trivial
  · trivial
  · trivial
  · -- the least exponent
    have hleast : ((unpackExponent bits).toNat : Int) - 1075 + 1 = -1074 := by
      rw [hzero]
      rfl
    show IsCanonical (unpackMantissa bits).toNat _ ∧ _
    rw [hleast]
    exact ⟨⟨by omega, le_rfl, Or.inr rfl⟩, by decide⟩
  · -- the leading bit stands in front of the mantissa
    have hlow : (unpackExponent bits).toNat ≠ 0 := by
      intro h
      exact hzero (BitVec.eq_of_toNat_eq h)
    have hhigh : (unpackExponent bits).toNat ≠ 2047 := by
      intro h
      exact hones (BitVec.eq_of_toNat_eq h)
    have hleading : (1#1 ++ unpackMantissa bits).toNat = 2 ^ 52 + (unpackMantissa bits).toNat :=
      Decimal.toNat_append_one (unpackMantissa bits)
    show IsCanonical (1#1 ++ unpackMantissa bits).toNat _ ∧ _
    rw [hleading]
    exact ⟨⟨by omega, by omega, Or.inl (by omega)⟩, by omega⟩

/-- What fits is unpacked as it was packed. -/
theorem unpack_pack_of_fits {a : UnpackedFloat} (h : Fits a) :
    unpack Format.binary64 (pack Format.binary64 a) = a := by
  cases a with
  | notANumber => rfl
  | infinity sign => cases sign <;> rfl
  | zero sign => cases sign <;> rfl
  | finite sign m e hm =>
    obtain ⟨hcanonical, hmax⟩ := h
    have hpositive : unpack Format.binary64 (pack Format.binary64 (.finite .positive m e hm)) =
        .finite .positive m e hm := by
      rw [← compose_eq hm]
      exact Decimal.unpack_pack hcanonical hmax
    cases sign with
    | positive => exact hpositive
    | negative =>
      have hneg := unpack_pack_neg (.finite .positive m e hm)
      rw [hpositive] at hneg
      exact hneg

/-! ## Numbers of double precision -/

theorem fits (x : Float) : Fits x.toModel.unpack :=
  fits_unpack x.toModel.toBits.toBitVec

/-- The negated number is unpacked with the other sign. -/
theorem unpack_neg (x : Float) : (-x).toModel.unpack = x.toModel.unpack.neg := by
  show unpack Format.binary64 (pack Format.binary64 x.toModel.unpack.neg) = _
  rw [unpack_pack_neg, unpack_pack_of_fits (fits x)]

/-- The magnitude of a number is unpacked without a sign. -/
theorem unpack_abs (x : Float) : x.abs.toModel.unpack = x.toModel.unpack.abs := by
  show unpack Format.binary64 (pack Format.binary64 x.toModel.unpack.abs) = _
  rw [unpack_pack_abs, unpack_pack_of_fits (fits x)]

/-- A product is packed once. -/
theorem unpack_mul (x y : Float) : (x * y).toModel.unpack = unpack Format.binary64
    (pack Format.binary64 (UnpackedFloat.mul Format.binary64 x.toModel.unpack y.toModel.unpack)) :=
  rfl

/-- The magnitude of a number is one as well. -/
theorem isNaN_abs (x : Float) : x.abs.isNaN = x.isNaN := by
  show x.abs.toModel.unpack.isNaN = x.toModel.unpack.isNaN
  rw [unpack_abs]
  cases x.toModel.unpack <;> rfl

/-- What is finite is a number. -/
theorem isNaN_of_isFinite {x : Float} (h : x.isFinite = true) : x.isNaN = false := by
  have hfinite : x.toModel.unpack.isFinite = true := h
  show x.toModel.unpack.isNaN = false
  revert hfinite
  cases x.toModel.unpack with
  | notANumber => exact nofun
  | _ => exact fun _ => rfl

/-- A negated number is finite if the number is. -/
theorem isFinite_neg (x : Float) : (-x).isFinite = x.isFinite := by
  show (-x).toModel.unpack.isFinite = x.toModel.unpack.isFinite
  rw [unpack_neg]
  cases x.toModel.unpack <;> rfl

end TradingRules.Double
