/-
# The distance of two numbers

The distance of two numbers is the magnitude of their difference, and it does not matter which is
subtracted from which. The distance from what is no number is none.
-/
import TradingRules.Proofs.Double.Order

namespace TradingRules.Double

open Float.Model (UnpackedFloat Format)
open Float.Model.UnpackedFloat (Accuracy Sign pack roundWithAccuracy unpack)

/-! ## Unpacked numbers -/

/-- Rounding does not look at the sign. -/
theorem abs_roundWithAccuracy (spec : Format) (sign : Sign) (m : Nat) (e : Int)
    (accuracy : Accuracy) : (roundWithAccuracy spec sign m e accuracy).abs =
      roundWithAccuracy spec .positive m e accuracy := by
  unfold roundWithAccuracy
  simp only
  split <;> rfl

theorem abs_round (spec : Format) (sign : Sign) (m : Nat) (e : Int) :
    (UnpackedFloat.round spec sign m e).abs = UnpackedFloat.round spec .positive m e :=
  abs_roundWithAccuracy spec sign _ _ _

/-- The magnitude of a normalized number is the normalized magnitude. -/
theorem abs_normalize (spec : Format) (n e : Int) :
    (UnpackedFloat.normalize spec n e .positive).abs = UnpackedFloat.normalize spec |n| e .positive := by
  unfold UnpackedFloat.normalize
  rcases lt_trichotomy n 0 with hneg | rfl | hpos
  · have habs : |n| = -n := abs_of_neg hneg
    have hlt : compare n 0 = .lt := Int.compare_eq_lt.mpr hneg
    have hgt : compare (-n) 0 = .gt := Int.compare_eq_gt.mpr (by omega)
    rw [habs, hlt, hgt]
    exact abs_round ..
  · rfl
  · have hgt : compare n 0 = .gt := Int.compare_eq_gt.mpr hpos
    rw [abs_of_pos hpos, hgt]
    exact abs_round ..

/-- The distance of unpacked numbers does not depend on their order. -/
theorem abs_sub_swap (spec : Format) (a b : UnpackedFloat) :
    (UnpackedFloat.sub spec b a).abs = (UnpackedFloat.sub spec a b).abs := by
  cases a with
  | notANumber => cases b <;> rfl
  | infinity s =>
    cases b with
    | infinity t => cases s <;> cases t <;> rfl
    | notANumber => rfl
    | zero t => rfl
    | finite t m e hm => rfl
  | zero s =>
    cases b with
    | zero t => cases s <;> cases t <;> rfl
    | notANumber => rfl
    | infinity t => rfl
    | finite t m e hm => rfl
  | finite s m₁ e₁ h₁ =>
    cases b with
    | notANumber => rfl
    | infinity t => rfl
    | zero t => rfl
    | finite t m₂ e₂ h₂ =>
      unfold UnpackedFloat.sub
      simp only
      rw [abs_normalize, abs_normalize, abs_sub_comm, min_comm]

/-- The distance from zero is the magnitude. -/
theorem abs_zero_sub (spec : Format) (sign : Sign) {a : UnpackedFloat} (h : a.isFinite = true) :
    (UnpackedFloat.sub spec (.zero sign) a).abs = a.abs := by
  cases a with
  | notANumber => cases h
  | infinity t => cases h
  | zero t => cases sign <;> cases t <;> rfl
  | finite t m e hm => rfl

/-! ## Numbers of double precision -/

theorem unpack_abs_sub (x y : Float) : (x - y).abs.toModel.unpack =
    unpack Format.binary64
      (pack Format.binary64 (UnpackedFloat.sub Format.binary64 x.toModel.unpack y.toModel.unpack).abs) := by
  rw [unpack_abs, unpack_pack_abs]
  rfl

/-- The distance of numbers does not depend on their order. -/
theorem unpack_abs_sub_swap (x y : Float) :
    (y - x).abs.toModel.unpack = (x - y).abs.toModel.unpack := by
  rw [unpack_abs_sub, unpack_abs_sub, abs_sub_swap]

/-- The distance from what is no number is none. -/
theorem isNaN_abs_sub {x y : Float} (h : x.isNaN = true ∨ y.isNaN = true) :
    (x - y).abs.isNaN = true := by
  have hunpack {z : Float} (hz : z.isNaN = true) : z.toModel.unpack = .notANumber := by
    have hz : z.toModel.unpack.isNaN = true := hz
    revert hz
    cases z.toModel.unpack with
    | notANumber => exact fun _ => rfl
    | _ => exact nofun
  have hsub : UnpackedFloat.sub Format.binary64 x.toModel.unpack y.toModel.unpack =
      .notANumber := by
    rcases h with hx | hy
    · rw [hunpack hx]
      rfl
    · rw [hunpack hy]
      cases x.toModel.unpack <;> rfl
  show (x - y).abs.toModel.unpack.isNaN = true
  rw [unpack_abs_sub, hsub]
  rfl

end TradingRules.Double
