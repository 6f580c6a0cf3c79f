/-
# Numbers without a sign

A number that is written without a sign is not negative. The sign of a number of double precision is
that of its unpacked form, and no operation by which digits become a number can set it: products and
quotients of numbers without a sign have none, rounding keeps the sign, and so do packing and
unpacking.
-/
import Mathlib
import TradingRules.Decimal.Reading

namespace TradingRules.Decimal

open Float.Model (UnpackedFloat Format)
open Float.Model.UnpackedFloat (Sign Accuracy roundWithAccuracy unpackSign
  unpackSign_packComponents)

/-! ## Unpacked numbers -/

/-- Whether an unpacked number has no minus sign; what is no number has none. -/
def unsigned : UnpackedFloat → Bool
  | .infinity .negative | .zero .negative | .finite .negative .. => false
  | .infinity .positive | .zero .positive | .finite .positive .. | .notANumber => true

/-- Rounding keeps the sign. -/
theorem unsigned_roundWithAccuracy (spec : Format) (mantissa : Nat) (exponent : Int)
    (accuracy : Accuracy) :
    unsigned (roundWithAccuracy spec .positive mantissa exponent accuracy) = true := by
  unfold roundWithAccuracy
  simp only
  split <;> rfl

/-- A product of numbers without a sign has none. -/
theorem unsigned_mul {spec : Format} {a b : UnpackedFloat} (ha : unsigned a = true)
    (hb : unsigned b = true) : unsigned (UnpackedFloat.mul spec a b) = true := by
  unfold unsigned at ha hb
  split at ha <;> split at hb <;>
    first | contradiction | rfl | exact unsigned_roundWithAccuracy ..

/-- A quotient of numbers without a sign has none. -/
theorem unsigned_div {spec : Format} {a b : UnpackedFloat} (ha : unsigned a = true)
    (hb : unsigned b = true) : unsigned (UnpackedFloat.div spec a b) = true := by
  unfold unsigned at ha hb
  split at ha <;> split at hb <;>
    first | contradiction | rfl | exact unsigned_roundWithAccuracy ..

/-- A number scaled by a power of ten has no sign. -/
theorem unsigned_ofScientific (spec : Format) (m : Nat) (e : Int) :
    unsigned (UnpackedFloat.ofScientific spec m e) = true := by
  unfold UnpackedFloat.ofScientific
  split
  · rfl
  split
  · rfl
  split
  · rfl
  split
  · exact unsigned_mul rfl rfl
  · exact unsigned_div rfl rfl

/-- A natural number has no sign. -/
theorem unsigned_ofNat (spec : Format) (n : Nat) :
    unsigned (UnpackedFloat.ofNat spec n) = true := by
  unfold UnpackedFloat.ofNat UnpackedFloat.ofInt UnpackedFloat.normalize
  split
  · rename_i hlt
    rw [Int.compare_eq_lt] at hlt
    omega
  · rfl
  · exact unsigned_roundWithAccuracy ..

/-! ## Packing -/

/-- A number without a sign is packed with a clear sign bit. -/
theorem unpackSign_pack {spec : Format} {a : UnpackedFloat} (h : unsigned a = true) :
    unpackSign (UnpackedFloat.pack spec a) = 0#1 := by
  cases a with
  | notANumber => exact unpackSign_packComponents ..
  | infinity sign =>
    cases sign with
    | positive => exact unpackSign_packComponents ..
    | negative => cases h
  | zero sign =>
    cases sign with
    | positive => exact unpackSign_packComponents ..
    | negative => cases h
  | finite sign mantissa exponent hpos =>
    cases sign with
    | positive =>
      rw [UnpackedFloat.pack]
      split
      · exact unpackSign_packComponents ..
      · split <;> exact unpackSign_packComponents ..
    | negative => cases h

/-- A clear sign bit is unpacked as no sign. -/
theorem unsigned_unpack {spec : Format} {bits : BitVec spec.numBits}
    (h : unpackSign bits = 0#1) : unsigned (UnpackedFloat.unpack spec bits) = true := by
  have hsign : Sign.ofBitVec 0#1 = .positive := rfl
  unfold UnpackedFloat.unpack
  simp only [h, hsign]
  split
  · split <;> rfl
  · split
    · split <;> rfl
    · rfl

/-! ## Numbers of double precision -/

/-- A number has no minus sign. -/
def IsUnsigned (x : Float) : Prop :=
  unsigned x.toModel.unpack = true

instance (x : Float) : Decidable (IsUnsigned x) :=
  inferInstanceAs (Decidable (_ = true))

theorem isUnsigned_pack {a : UnpackedFloat} (h : unsigned a = true) :
    IsUnsigned (.ofModel (Float.Model.pack a)) :=
  unsigned_unpack (unpackSign_pack h)

theorem IsUnsigned.mul {x y : Float} (hx : IsUnsigned x) (hy : IsUnsigned y) : IsUnsigned (x * y) :=
  isUnsigned_pack (unsigned_mul hx hy)

theorem IsUnsigned.div {x y : Float} (hx : IsUnsigned x) (hy : IsUnsigned y) : IsUnsigned (x / y) :=
  isUnsigned_pack (unsigned_div hx hy)

/-- The powers of ten that are represented exactly have no sign. -/
theorem isUnsigned_power {e : Nat} (h : e < Float.exactlyRepresentablePowersOfTen.size) :
    IsUnsigned Float.exactlyRepresentablePowersOfTen[e] := by
  have hall : ∀ x ∈ Float.exactlyRepresentablePowersOfTen, IsUnsigned x := by decide +kernel
  exact hall _ (Array.getElem_mem h)

/-- A decimal is nearest to a number without a sign. -/
theorem isUnsigned_ofScientific (m : Nat) (negative : Bool) (e : Nat) :
    IsUnsigned (Float.ofScientific m negative e) := by
  unfold Float.ofScientific
  have hnat : IsUnsigned m.toUInt64.toFloat := isUnsigned_pack (unsigned_ofNat _ _)
  split
  · simp only
    split
    · exact hnat.div (isUnsigned_power _)
    · exact hnat.mul (isUnsigned_power _)
  · exact isUnsigned_pack (unsigned_ofScientific ..)

theorem isUnsigned_nearest (digits : Nat) (exponent : Int) : IsUnsigned (nearest digits exponent) := by
  unfold nearest
  split
  · exact isUnsigned_ofScientific 0 true 1
  split
  · exact (isUnsigned_ofScientific 10 true 1).div (isUnsigned_ofScientific 0 true 1)
  split
  · exact isUnsigned_ofScientific 0 true 1
  · exact isUnsigned_ofScientific ..

/-- A finite number without a sign is at least zero. -/
theorem IsUnsigned.nonneg {x : Float} (h : IsUnsigned x) (hfinite : x.isFinite = true) : 0.0 ≤ x := by
  have hzero : (0.0 : Float).toModel.unpack = .zero .positive := rfl
  show decide ((0.0 : Float).toModel ≤ x.toModel) = true
  rw [decide_eq_true_eq]
  show ((0.0 : Float).toModel.unpack.compare x.toModel.unpack).any (·.isLE) = true
  rw [hzero]
  have hfinite : x.toModel.unpack.isFinite = true := hfinite
  unfold IsUnsigned at h
  cases hx : x.toModel.unpack with
  | notANumber =>
    rw [hx] at hfinite
    cases hfinite
  | infinity sign =>
    rw [hx] at hfinite
    cases hfinite
  | zero sign => rfl
  | finite sign mantissa exponent hpos =>
    rw [hx] at h
    cases sign with
    | positive => rfl
    | negative => cases h

end TradingRules.Decimal
