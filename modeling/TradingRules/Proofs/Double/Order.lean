/-
# The order of numbers

Two numbers compare as less, equal or greater, unless one of them is no number. Turned around they
compare the other way, and finite ones compare as the rationals that they stand for.
-/
import TradingRules.Proofs.Double.Unpacked

namespace TradingRules.Double

open Float.Model (UnpackedFloat)
open Float.Model.UnpackedFloat (Sign)

/-! ## Unpacked numbers -/

/-- Unpacked numbers turned around compare the other way. -/
theorem compare_swap (a b : UnpackedFloat) : b.compare a = (a.compare b).map Ordering.swap := by
  have hparts (e₁ e₂ : Int) (m₁ m₂ : Nat) :
      (compare e₂ e₁).then (compare m₂ m₁) = ((compare e₁ e₂).then (compare m₁ m₂)).swap := by
    rw [Ordering.swap_then, Int.compare_swap, Nat.compare_swap]
  have hsign (s t : Sign) : compare t s = (compare s t).swap := by
    cases s <;> cases t <;> rfl
  cases a with
  | notANumber => cases b <;> rfl
  | infinity s =>
    cases b with
    | notANumber => rfl
    | infinity t => exact congrArg some (hsign s t)
    | zero t => cases s <;> rfl
    | finite t m e hm => cases s <;> rfl
  | zero s =>
    cases b with
    | notANumber => rfl
    | infinity t => cases t <;> rfl
    | zero t => rfl
    | finite t m e hm => cases t <;> rfl
  | finite s m₁ e₁ h₁ =>
    cases b with
    | notANumber => rfl
    | infinity t => cases t <;> rfl
    | zero t => cases s <;> rfl
    | finite t m₂ e₂ h₂ =>
      cases s <;> cases t
      · exact congrArg (fun o => some (Ordering.swap o)) (hparts e₁ e₂ m₁ m₂)
      · rfl
      · rfl
      · exact congrArg some (hparts e₁ e₂ m₁ m₂)

/-- Unpacked numbers compare unless one of them is no number. -/
theorem compare_eq_none_iff {a b : UnpackedFloat} :
    a.compare b = none ↔ a.isNaN = true ∨ b.isNaN = true := by
  cases a with
  | notANumber => exact ⟨fun _ => Or.inl rfl, fun _ => rfl⟩
  | infinity s => cases s <;> cases b <;> simp [UnpackedFloat.compare, UnpackedFloat.isNaN]
  | zero s =>
    cases b with
    | finite t m e hm => cases t <;> simp [UnpackedFloat.compare, UnpackedFloat.isNaN]
    | infinity t => cases t <;> simp [UnpackedFloat.compare, UnpackedFloat.isNaN]
    | zero t => simp [UnpackedFloat.compare, UnpackedFloat.isNaN]
    | notANumber => simp [UnpackedFloat.compare, UnpackedFloat.isNaN]
  | finite s m e hm =>
    cases b with
    | finite t m e hm => cases s <;> cases t <;> simp [UnpackedFloat.compare, UnpackedFloat.isNaN]
    | infinity t => cases t <;> simp [UnpackedFloat.compare, UnpackedFloat.isNaN]
    | zero t => cases s <;> simp [UnpackedFloat.compare, UnpackedFloat.isNaN]
    | notANumber => simp [UnpackedFloat.compare, UnpackedFloat.isNaN]

/-- Magnitudes are the same if they compare as equal. -/
theorem abs_eq_of_compare_eq {a b : UnpackedFloat} (h : a.abs.compare b.abs = some .eq) :
    a.abs = b.abs := by
  cases a with
  | notANumber => cases h
  | infinity s => cases b <;> first | rfl | cases h
  | zero s => cases b <;> first | rfl | cases h
  | finite s m₁ e₁ h₁ =>
    cases b with
    | finite t m₂ e₂ h₂ =>
      have hparts : (compare e₁ e₂).then (compare m₁ m₂) = .eq := Option.some.inj h
      rw [Ordering.then_eq_eq, Int.compare_eq_eq, Nat.compare_eq_eq] at hparts
      obtain ⟨rfl, rfl⟩ := hparts
      rfl
    | notANumber => cases h
    | infinity t => cases h
    | zero t => cases h

/-! ## Numbers of double precision -/

/-- How two numbers compare, unless one of them is no number. -/
def order (x y : Float) : Option Ordering :=
  x.toModel.unpack.compare y.toModel.unpack

theorem lt_iff {x y : Float} : x < y ↔ order x y = some .lt := by
  show decide ((order x y == some .lt) = true) = true ↔ _
  rw [decide_eq_true_eq, beq_iff_eq]

theorem not_lt_of_order_eq {x y : Float} {o : Ordering} (h : order x y = some o) (ho : o ≠ .lt) :
    ¬ x < y := by
  rw [lt_iff, h]
  intro hlt
  exact ho (Option.some.inj hlt)

theorem le_iff {x y : Float} : x ≤ y ↔ order x y = some .lt ∨ order x y = some .eq := by
  show decide (((order x y).any fun o => o.isLE) = true) = true ↔ _
  rw [decide_eq_true_eq, Option.any_eq_true]
  constructor
  · rintro ⟨o, horder, hle⟩
    cases o with
    | lt => exact Or.inl horder
    | eq => exact Or.inr horder
    | gt => cases hle
  · rintro (horder | horder)
    · exact ⟨_, horder, rfl⟩
    · exact ⟨_, horder, rfl⟩

theorem beq_iff {x y : Float} : (x == y) = true ↔ order x y = some .eq := by
  show (order x y == some .eq) = true ↔ _
  rw [beq_iff_eq]

/-- Numbers turned around compare the other way. -/
theorem order_swap (x y : Float) : order y x = (order x y).map Ordering.swap :=
  compare_swap _ _

/-- Two numbers compare unless one of them is no number. -/
theorem order_eq_none_iff {x y : Float} : order x y = none ↔ x.isNaN = true ∨ y.isNaN = true :=
  compare_eq_none_iff

theorem order_swap_eq_iff {x y : Float} {o : Ordering} :
    order y x = some o ↔ order x y = some o.swap := by
  rw [order_swap]
  constructor
  · intro h
    obtain ⟨o', horder, rfl⟩ := Option.map_eq_some_iff.mp h
    rw [horder, Ordering.swap_swap]
  · intro h
    rw [h, Option.map_some, Ordering.swap_swap]

/-- Magnitudes that compare as equal are the same. -/
theorem unpack_abs_eq_of_order_eq {x y : Float} (h : order x.abs y.abs = some .eq) :
    x.abs.toModel.unpack = y.abs.toModel.unpack := by
  unfold order at h
  rw [unpack_abs, unpack_abs] at h ⊢
  exact abs_eq_of_compare_eq h

end TradingRules.Double
