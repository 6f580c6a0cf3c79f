/-
# Running sums

Magnitudes are summed from the left, and every sum on the way is rounded. A running sum does not grow
for ever: once it is so large that a term is less than half of the distance to the next number, it
stays where it is. So a sum of any number of terms is at most as large as a fixed multiple of the
greatest term.
-/
import TradingRules.Proofs.Double.Magnitude

namespace TradingRules.Double

open TradingRules.Decimal (IsCanonical compose contains_intervalOf)

/-- A sum of magnitudes is one. -/
theorem IsMagnitude.foldl_add {start : Float} {terms : List Float} (hstart : IsMagnitude start)
    (hterms : ∀ term ∈ terms, IsMagnitude term) : IsMagnitude (terms.foldl (· + ·) start) := by
  induction terms generalizing start with
  | nil => exact hstart
  | cons term terms ih =>
    obtain ⟨hterm, hterms⟩ := List.forall_mem_cons.mp hterms
    exact ih (hstart.add hterm) hterms

/-- A finite magnitude that stands for a number or less. -/
structure IsAtMost (x : Float) (q : ℚ) : Prop where
  isMagnitude : IsMagnitude x
  isFinite : x.isFinite = true
  value_le : value x ≤ q

/-- What is rounded from no more than a finite magnitude stands for is at most that. -/
theorem Rounded.isAtMost {q : ℚ} {x y : Float} (hx : Rounded q x) (hy : IsMagnitude y)
    (hfinite : y.isFinite = true) (hle : q ≤ value y) : IsAtMost x (value y) :=
  have h := hx.value_le hy hfinite hle
  ⟨hx.isMagnitude, h.1, h.2⟩

/-- A power of two is a number, and what lies a quarter of a unit above it is rounded to it. -/
theorem exists_rounded_quarter {e : Int} (hlow : -1074 ≤ e) (hhigh : e ≤ 971) :
    ∃ x : Float, x.isFinite = true ∧ value x = 2 ^ (e + 52) ∧
      Rounded (2 ^ (e + 52) + 2 ^ (e - 2)) x := by
  have hcanonical : IsCanonical (2 ^ 52) e := ⟨by decide, hlow, Or.inl le_rfl⟩
  have hunpack : (Float.ofModel (Float.Model.pack (compose (2 ^ 52) e))).toModel.unpack =
      compose (2 ^ 52) e := Decimal.unpack_pack hcanonical hhigh
  have hquarter : (2 : ℚ) ^ (e + 52) + 2 ^ (e - 2) = (2 ^ 52 + 1 / 4) * 2 ^ e := by
    rw [zpow_add₀ two_ne_zero, zpow_sub₀ two_ne_zero]
    norm_num
    ring
  refine ⟨.ofModel (Float.Model.pack (compose (2 ^ 52) e)), ?_, ?_, 2 ^ 52, e, hcanonical, ?_, ?_⟩
  · show (Float.ofModel (Float.Model.pack (compose (2 ^ 52) e))).toModel.unpack.isFinite = true
    rw [hunpack]
    rfl
  · unfold value
    rw [hunpack, rational_compose, zpow_add₀ two_ne_zero]
    norm_num
    ring
  · -- below the bound the numbers lie closer together, but the quarter lies above it
    rw [hquarter]
    refine contains_intervalOf ⟨?_, ?_, fun hodd => absurd hodd (by decide)⟩ (by norm_num)
      fun _ _ => by norm_num
    · norm_num
    · norm_num
  · rw [hunpack, if_pos hhigh]

/-- What is rounded from no more than a power of two is at most that. -/
theorem Rounded.isAtMost_zpow {q : ℚ} {x : Float} {e : Int} (h : Rounded q x) (hlow : -1022 ≤ e)
    (hhigh : e ≤ 1023) (hle : q ≤ 2 ^ e) : IsAtMost x (2 ^ e) := by
  obtain ⟨bound, hfinite, hvalue, hbound⟩ :=
    exists_rounded_quarter (e := e - 52) (by omega) (by omega)
  have hpower : e - 52 + 52 = e := by ring
  rw [hpower] at hvalue
  rw [← hvalue] at hle ⊢
  exact h.isAtMost hbound.isMagnitude hfinite hle

/-- A term does not lift a sum above a bound that is large enough. -/
theorem IsAtMost.add {x y : Float} {e : Int} (hx : IsAtMost x (2 ^ (e + 54)))
    (hy : IsAtMost y (2 ^ e)) (hlow : -1076 ≤ e) (hhigh : e ≤ 969) :
    IsAtMost (x + y) (2 ^ (e + 54)) := by
  obtain ⟨bound, hfinite, hvalue, hbound⟩ :=
    exists_rounded_quarter (e := e + 2) (by omega) (by omega)
  have hpower : e + 2 + 52 = e + 54 := by ring
  have hquarter : e + 2 - 2 = e := by ring
  rw [hpower] at hvalue hbound
  rw [hquarter] at hbound
  -- the exact sum is at most a quarter of a unit above the bound, and so rounded to no more than it
  have hsum : Rounded (value x + value y) (x + y) :=
    hx.isMagnitude.rounded_add hy.isMagnitude hx.isFinite hy.isFinite
  have hle : x + y ≤ bound := hsum.le hbound (add_le_add hx.value_le hy.value_le)
  obtain ⟨hsumFinite, hsumLe⟩ := hsum.isMagnitude.value_le hbound.isMagnitude hfinite hle
  exact ⟨hsum.isMagnitude, hsumFinite, hsumLe.trans_eq hvalue⟩

/-- However many terms are summed, the sum is at most `2 ^ 54` times a power of two that bounds them. -/
theorem IsAtMost.foldl_add {start : Float} {terms : List Float} {e : Int} (hlow : -1076 ≤ e)
    (hhigh : e ≤ 969) (hstart : IsAtMost start (2 ^ (e + 54)))
    (hterms : ∀ term ∈ terms, IsAtMost term (2 ^ e)) :
    IsAtMost (terms.foldl (· + ·) start) (2 ^ (e + 54)) := by
  induction terms generalizing start with
  | nil => exact hstart
  | cons term terms ih =>
    obtain ⟨hterm, hterms⟩ := List.forall_mem_cons.mp hterms
    exact ih (hstart.add hterm hlow hhigh) hterms

end TradingRules.Double
