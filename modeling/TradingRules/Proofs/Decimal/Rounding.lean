/-
# Rounding to double precision

A magnitude is rounded by cutting bits off its mantissa. What is cut off is remembered in two bits,
which tell on which side of a half it lies; so the mantissa that results is the nearest one, and the
even one of two equally near. The rounded number is packed into the bits of the number whose
interval holds the magnitude.
-/
import TradingRules.Proofs.Decimal.Value
import TradingRules.Proofs.Decimal.Sign

namespace TradingRules.Decimal

open Float.Model (UnpackedFloat Format totalExponent)
open Float.Model.UnpackedFloat (Accuracy ExtendedMantissa accuracyOfFraction divCore
  packComponents roundWithAccuracy shiftToExponent shiftToTargetExponent)

/-! ## Cutting bits off -/

/-- What an extended mantissa tells of the number that it was cut off from. -/
def Approximates : ExtendedMantissa → ℚ → Prop
  | ⟨m, false, false⟩, x => x = m
  | ⟨m, false, true⟩, x => m < x ∧ x < m + 1 / 2
  | ⟨m, true, false⟩, x => x = m + 1 / 2
  | ⟨m, true, true⟩, x => m + 1 / 2 < x ∧ x < m + 1

/-- The bit that is cut off becomes the round bit, and the old round bit sticks. -/
theorem Approximates.shiftRightOne {em : ExtendedMantissa} {x : ℚ} (h : Approximates em x) :
    Approximates em.shiftRightOne (x / 2) := by
  obtain ⟨m, round, sticky⟩ := em
  have hm : (m : ℚ) = 2 * (m / 2 : Nat) + (m % 2 : Nat) := by
    exact_mod_cast (Nat.div_add_mod m 2).symm
  unfold ExtendedMantissa.shiftRightOne
  rcases Nat.mod_two_eq_zero_or_one m with heven | hodd
  · have hbit : (m % 2 != 0) = false := by rw [heven]; rfl
    rw [heven, Nat.cast_zero] at hm
    rw [hbit]
    cases round <;> cases sticky <;>
      simp only [Approximates, Bool.or_false, Bool.or_true] at h ⊢ <;>
      first | linarith | (constructor <;> linarith)
  · have hbit : (m % 2 != 0) = true := by rw [hodd]; rfl
    rw [hodd, Nat.cast_one] at hm
    rw [hbit]
    cases round <;> cases sticky <;>
      simp only [Approximates, Bool.or_false, Bool.or_true] at h ⊢ <;>
      first | linarith | (constructor <;> linarith)

/-- Bits are cut off one by one. -/
theorem Approximates.shiftRight {em : ExtendedMantissa} {x : ℚ} (h : Approximates em x) (n : Nat) :
    Approximates (em >>> n) (x / 2 ^ n) := by
  show Approximates (n.repeat ExtendedMantissa.shiftRightOne em) _
  induction n with
  | zero => simpa [Nat.repeat] using h
  | succ n ih =>
    rw [Nat.repeat, pow_succ, ← div_div]
    exact ih.shiftRightOne

theorem mantissa_shiftRight (em : ExtendedMantissa) (n : Nat) :
    (em >>> n).mantissa = em.mantissa / 2 ^ n := by
  show (n.repeat ExtendedMantissa.shiftRightOne em).mantissa = _
  induction n with
  | zero => simp [Nat.repeat]
  | succ n ih =>
    rw [Nat.repeat, pow_succ, ← Nat.div_div_eq_div_mul, ← ih]
    rfl

theorem mantissa_ofMantissaAndAccuracy (m : Nat) (accuracy : Accuracy) :
    (ExtendedMantissa.ofMantissaAndAccuracy m accuracy).mantissa = m := by
  unfold ExtendedMantissa.ofMantissaAndAccuracy
  split <;> rfl

/-- The mantissa is what is left without the fraction. -/
theorem Approximates.mantissa_le {em : ExtendedMantissa} {x : ℚ} (h : Approximates em x) :
    em.mantissa ≤ x ∧ x < em.mantissa + 1 := by
  obtain ⟨m, round, sticky⟩ := em
  cases round <;> cases sticky <;> simp only [Approximates] at h ⊢ <;> constructor <;> linarith

/-- A natural number is nearest to a number; of two equally near ones the even one is. -/
structure RoundsTo (x : ℚ) (n : Nat) : Prop where
  sub_le : n - 1 / 2 ≤ x
  le_add : x ≤ n + 1 / 2
  inside : n % 2 = 1 → n - 1 / 2 < x ∧ x < n + 1 / 2

/-- The rounded mantissa is the nearest natural number. -/
theorem Approximates.roundsTo {em : ExtendedMantissa} {x : ℚ} (h : Approximates em x) :
    RoundsTo x em.roundedMantissa := by
  obtain ⟨m, round, sticky⟩ := em
  unfold ExtendedMantissa.roundedMantissa ExtendedMantissa.accuracy
  cases round <;> cases sticky <;>
    simp only [Approximates, Accuracy.roundToNearestEven] at h ⊢
  case true.false =>
    -- halfway between two numbers, the even one is chosen
    rcases Nat.mod_two_eq_zero_or_one m with heven | hodd
    · rw [heven, Nat.add_zero]
      refine ⟨by linarith, by linarith, fun hm => ?_⟩
      rw [heven] at hm
      cases hm
    · rw [hodd]
      refine ⟨by push_cast; linarith, by push_cast; linarith, fun hm => ?_⟩
      omega
  all_goals
    refine ⟨?_, ?_, fun _ => ⟨?_, ?_⟩⟩ <;> push_cast <;> linarith

/-- Rounding adds one at most. -/
theorem roundedMantissa_cases (em : ExtendedMantissa) :
    em.roundedMantissa = em.mantissa ∨ em.roundedMantissa = em.mantissa + 1 := by
  obtain ⟨m, round, sticky⟩ := em
  unfold ExtendedMantissa.roundedMantissa ExtendedMantissa.accuracy
  cases round <;> cases sticky
  · exact Or.inl rfl
  · exact Or.inl rfl
  · show m + m % 2 = m ∨ m + m % 2 = m + 1
    omega
  · exact Or.inr rfl

/-! ## Canonical numbers -/

/-- A mantissa and an exponent as they stand for a number of double precision, be it too large a
one: the mantissa has 53 bits, or fewer if the exponent is the least. -/
structure IsCanonical (m : Nat) (e : Int) : Prop where
  lt : m < 2 ^ 53
  le_exponent : -1074 ≤ e
  normal : 2 ^ 52 ≤ m ∨ e = -1074

/-- The unpacked number with a mantissa and an exponent, which has no sign. -/
def compose (m : Nat) (e : Int) : UnpackedFloat :=
  if h : m = 0 then .zero .positive else .finite .positive m e (Nat.pos_of_ne_zero h)

theorem compose_eq {m : Nat} {e : Int} (h : 0 < m) : compose m e = .finite .positive m e h :=
  dif_neg h.ne'

/-- The interval of a mantissa and an exponent. -/
def intervalOf (m : Nat) (e : Int) : Interval :=
  Interval.of m e (m == 2 ^ 52 && decide (-1074 < e))

theorem start_intervalOf_zero (e : Int) : (intervalOf 0 e).start = 0 := by
  show ((_ * _ : Nat) : ℚ) / _ = 0
  simp

/-- What is rounded to a mantissa lies in its interval. The least mantissa needs care, since numbers
lie closer below it. -/
theorem contains_intervalOf {m : Nat} {e : Int} {x : ℚ} (h : RoundsTo x m) (hx : 0 ≤ x)
    (hleast : m = 2 ^ 52 → -1074 < e → (2 ^ 52 : ℚ) - 1 / 4 ≤ x) :
    (intervalOf m e).Contains (x * 2 ^ e) := by
  have hunit : (0 : ℚ) < 2 ^ e := zpow_pos two_pos e
  have hstop : (intervalOf m e).stop = (m + 1 / 2) * 2 ^ e := Interval.stop_of m e _
  have hclosed : (intervalOf m e).closed = (m % 2 == 0) := rfl
  have hodd : (intervalOf m e).closed = false → m % 2 = 1 := by
    rw [hclosed, beq_eq_false_iff_ne]
    omega
  rcases Nat.eq_zero_or_pos m with rfl | hpos
  · refine ⟨?_, ?_, fun hopen => absurd (hodd hopen) (by decide)⟩
    · rw [start_intervalOf_zero]
      exact mul_nonneg hx hunit.le
    · rw [hstop]
      exact mul_le_mul_of_nonneg_right h.le_add hunit.le
  · have hstart : (intervalOf m e).start =
        (m - if (m == 2 ^ 52 && decide (-1074 < e)) = true then 1 / 4 else 1 / 2) * 2 ^ e :=
      Interval.start_of e _ hpos
    have hbelow :
        (m - if (m == 2 ^ 52 && decide (-1074 < e)) = true then 1 / 4 else 1 / 2 : ℚ) ≤ x := by
      split
      · rename_i hnarrow
        rw [Bool.and_eq_true, beq_iff_eq, decide_eq_true_eq] at hnarrow
        rw [hnarrow.1]
        exact_mod_cast hleast hnarrow.1 hnarrow.2
      · exact h.sub_le
    refine ⟨?_, ?_, fun hopen => ⟨?_, ?_⟩⟩
    · exact hstart.trans_le (mul_le_mul_of_nonneg_right hbelow hunit.le)
    · rw [hstop]
      exact mul_le_mul_of_nonneg_right h.le_add hunit.le
    · have hwide : (m == 2 ^ 52 && decide (-1074 < e)) = false := by
        have := hodd hopen
        rw [Bool.and_eq_false_iff, beq_eq_false_iff_ne]
        omega
      rw [hwide, if_neg Bool.false_ne_true] at hstart
      refine hstart.trans_lt (mul_lt_mul_of_pos_right (h.inside (hodd hopen)).1 hunit)
    · rw [hstop]
      exact mul_lt_mul_of_pos_right (h.inside (hodd hopen)).2 hunit

/-! ## Rounding -/

/-- The exponent that a number of double precision has if it is as large as the given one. -/
def exponentFor (m : Nat) (e : Int) : Int :=
  max (m.log2 + e - 52) (-1074)

theorem le_exponentFor (m : Nat) (e : Int) : -1074 ≤ exponentFor m e :=
  le_max_right _ _

theorem targetExponent_totalExponent (m : Nat) (e : Int) :
    Format.binary64.targetExponent (totalExponent m e) = exponentFor m e := by
  show max ((m.log2 : Int) + 1 + e - 53) (-1074) = max (m.log2 + e - 52) (-1074)
  congr 1
  omega

theorem log2_le {m n : Nat} (h : m < 2 ^ (n + 1)) : m.log2 ≤ n := by
  rcases Nat.eq_zero_or_pos m with rfl | hpos
  · rw [Nat.log2_zero]
    exact Nat.zero_le n
  · exact Nat.le_of_lt_succ ((Nat.log2_lt hpos.ne').mpr h)

/-- Cutting a mantissa off at the exponent for it leaves 53 bits, or fewer if the exponent is the
least. -/
theorem isCanonical_div {m : Nat} {e : Int} (h : e ≤ exponentFor m e) :
    IsCanonical (m / 2 ^ (exponentFor m e - e).toNat) (exponentFor m e) := by
  have hlog : (m.log2 : Int) - 52 ≤ exponentFor m e - e := by
    have : m.log2 + e - 52 ≤ exponentFor m e := le_max_left _ _
    omega
  obtain ⟨n, hn⟩ := Int.eq_ofNat_of_zero_le (Int.sub_nonneg.mpr h)
  rw [hn, Int.toNat_natCast]
  refine ⟨?_, le_exponentFor m e, ?_⟩
  · rw [Nat.div_lt_iff_lt_mul (Nat.two_pow_pos n), ← pow_add]
    calc m < 2 ^ (m.log2 + 1) := Nat.lt_log2_self
      _ ≤ 2 ^ (53 + n) := Nat.pow_le_pow_right two_pos (by omega)
  · rcases max_choice ((m.log2 : Int) + e - 52) (-1074) with hmax | hmax
    · left
      have hlog' : m.log2 = 52 + n := by
        have : exponentFor m e = m.log2 + e - 52 := hmax
        omega
      have hne : m ≠ 0 := by
        rintro rfl
        rw [Nat.log2_zero] at hlog'
        omega
      rw [Nat.le_div_iff_mul_le (Nat.two_pow_pos n), ← pow_add, ← hlog']
      exact Nat.log2_self_le hne
    · exact Or.inr hmax

/-- A mantissa with at most 53 bits is not cut off any more. -/
theorem exponentFor_le {m : Nat} {e : Int} (hm : m < 2 ^ 53) (he : -1074 ≤ e) :
    exponentFor m e ≤ e := by
  have hlog := log2_le hm
  exact max_le (by omega) he

/-- The mantissa that is left when a number is cut off at its exponent and rounded. -/
def roundedAt (m : Nat) (e : Int) (accuracy : Accuracy) : Nat :=
  (ExtendedMantissa.ofMantissaAndAccuracy m accuracy >>>
    (exponentFor m e - e).toNat).roundedMantissa

/-- A rounded mantissa has at most 53 bits, unless it is the least with more. -/
theorem roundedAt_le {m : Nat} {e : Int} (accuracy : Accuracy) (h : e ≤ exponentFor m e) :
    roundedAt m e accuracy ≤ 2 ^ 53 ∧
      (2 ^ 52 ≤ roundedAt m e accuracy ∨ exponentFor m e = -1074) := by
  have hcanonical := isCanonical_div h
  have hmantissa : (ExtendedMantissa.ofMantissaAndAccuracy m accuracy >>>
      (exponentFor m e - e).toNat).mantissa = m / 2 ^ (exponentFor m e - e).toNat := by
    rw [mantissa_shiftRight, mantissa_ofMantissaAndAccuracy]
  have hlt := hcanonical.lt
  have hcases := roundedMantissa_cases
    (ExtendedMantissa.ofMantissaAndAccuracy m accuracy >>> (exponentFor m e - e).toNat)
  rw [hmantissa] at hcases
  unfold roundedAt
  refine ⟨by omega, hcanonical.normal.imp_left fun hnormal => by omega⟩

/-- A rounded mantissa is halved if it has become too long. -/
theorem compose_halved {m : Nat} {e : Int} (hm : m ≤ 2 ^ 53) (he : -1074 ≤ e) :
    compose (m / 2 ^ (exponentFor m e - e).toNat) (e + (exponentFor m e - e).toNat) =
      if m = 2 ^ 53 then compose (2 ^ 52) (e + 1) else compose m e := by
  split_ifs with hcarry
  · subst hcarry
    have hlog : (2 ^ 53 : Nat).log2 = 53 := Nat.log2_two_pow
    have hexponent : exponentFor (2 ^ 53) e = e + 1 := by
      unfold exponentFor
      rw [hlog, max_eq_left (by omega)]
      omega
    have hone : (exponentFor (2 ^ 53) e - e).toNat = 1 := by omega
    rw [hone]
    rfl
  · have hzero : (exponentFor m e - e).toNat = 0 := by
      have := exponentFor_le (lt_of_le_of_ne hm hcarry) he
      omega
    rw [hzero, pow_zero, Nat.div_one, Nat.cast_zero, add_zero]

/-- Rounding, in two steps: the mantissa is cut off and rounded, and it is halved if that has made
it too long. -/
theorem roundWithAccuracy_eq {m : Nat} {e : Int} (accuracy : Accuracy) (h : e ≤ exponentFor m e) :
    roundWithAccuracy Format.binary64 .positive m e accuracy =
      if roundedAt m e accuracy = 2 ^ 53 then compose (2 ^ 52) (exponentFor m e + 1)
      else compose (roundedAt m e accuracy) (exponentFor m e) := by
  have hexponent : e + ((exponentFor m e - e).toNat : Int) = exponentFor m e := by omega
  rw [← compose_halved (roundedAt_le accuracy h).1 (le_exponentFor m e)]
  unfold roundWithAccuracy shiftToTargetExponent shiftToExponent
  simp only [targetExponent_totalExponent, hexponent, mantissa_shiftRight,
    mantissa_ofMantissaAndAccuracy]
  rfl

/-- An unpacked number is what a magnitude is rounded to: it is canonical and the magnitude lies in
its interval. -/
def IsRounded (x : ℚ) (a : UnpackedFloat) : Prop :=
  ∃ m e, IsCanonical m e ∧ (intervalOf m e).Contains x ∧ a = compose m e

/-- Rounding gives a number that the magnitude is rounded to. -/
theorem isRounded_roundWithAccuracy {m : Nat} {e : Int} {accuracy : Accuracy} {x : ℚ}
    (h : e ≤ exponentFor m e)
    (hx : Approximates (ExtendedMantissa.ofMantissaAndAccuracy m accuracy) x) :
    IsRounded (x * 2 ^ e) (roundWithAccuracy Format.binary64 .positive m e accuracy) := by
  obtain ⟨hle, hnormal⟩ := roundedAt_le accuracy h
  have hcanonical := isCanonical_div h
  have happrox := hx.shiftRight (exponentFor m e - e).toNat
  have hround : RoundsTo (x / 2 ^ (exponentFor m e - e).toNat) (roundedAt m e accuracy) :=
    happrox.roundsTo
  have hfloor := happrox.mantissa_le
  rw [mantissa_shiftRight, mantissa_ofMantissaAndAccuracy] at hfloor
  have hnonneg : 0 ≤ x / 2 ^ (exponentFor m e - e).toNat := (Nat.cast_nonneg _).trans hfloor.1
  -- the magnitude in units of the exponent that it is rounded at
  have hunits : x * 2 ^ e = x / 2 ^ (exponentFor m e - e).toNat * 2 ^ exponentFor m e := by
    have hexponent : exponentFor m e = (exponentFor m e - e).toNat + e := by omega
    conv_rhs => rw [hexponent, zpow_add₀ two_ne_zero, zpow_natCast, ← hexponent]
    field_simp
  rw [roundWithAccuracy_eq accuracy h, hunits]
  generalize hy : x / 2 ^ (exponentFor m e - e).toNat = y at *
  split_ifs with hcarry
  · -- the rounded mantissa is the least with one bit more
    rw [hcarry] at hround
    have hlow := hround.sub_le
    have hhigh := hround.le_add
    push_cast at hlow hhigh
    have hhalf : y * 2 ^ exponentFor m e = y / 2 * 2 ^ (exponentFor m e + 1) := by
      rw [zpow_add_one₀ two_ne_zero]
      ring
    refine ⟨2 ^ 52, exponentFor m e + 1, ⟨by decide, ?_, Or.inl le_rfl⟩, ?_, rfl⟩
    · have := le_exponentFor m e
      omega
    · rw [hhalf]
      refine contains_intervalOf ⟨?_, ?_, fun hodd => absurd hodd (by decide)⟩ (by linarith)
        fun _ _ => by linarith
      · push_cast
        linarith
      · push_cast
        linarith
  · refine ⟨roundedAt m e accuracy, exponentFor m e,
      ⟨lt_of_le_of_ne hle hcarry, le_exponentFor m e, hnormal⟩, ?_, rfl⟩
    refine contains_intervalOf hround hnonneg fun hleast hlarge => ?_
    -- the mantissa that was cut off is no smaller, so nothing was rounded up to it
    have hmantissa : 2 ^ 52 ≤ m / 2 ^ (exponentFor m e - e).toNat :=
      hcanonical.normal.resolve_right hlarge.ne'
    have hcast : (2 ^ 52 : ℚ) ≤ (m / 2 ^ (exponentFor m e - e).toNat : Nat) := by
      exact_mod_cast hmantissa
    linarith [hfloor.1]

/-! ## Products and quotients -/

/-- A product of two numbers is rounded once. -/
theorem isRounded_mul {m₁ m₂ : Nat} (e₁ e₂ : Int) (h₁ : 0 < m₁) (h₂ : 0 < m₂)
    (hlarge : 2 ^ 52 ≤ m₁ * m₂) :
    IsRounded (m₁ * 2 ^ e₁ * (m₂ * 2 ^ e₂))
      (UnpackedFloat.mul Format.binary64 (.finite .positive m₁ e₁ h₁)
        (.finite .positive m₂ e₂ h₂)) := by
  have hvalue : (m₁ * 2 ^ e₁ * (m₂ * 2 ^ e₂) : ℚ) = (m₁ * m₂ : Nat) * 2 ^ (e₁ + e₂) := by
    rw [zpow_add₀ two_ne_zero]
    push_cast
    ring
  have hexponent : e₁ + e₂ ≤ exponentFor (m₁ * m₂) (e₁ + e₂) := by
    have hlog := (Nat.le_log2 (Nat.mul_pos h₁ h₂).ne').mpr hlarge
    exact le_max_of_le_left (by omega)
  rw [hvalue]
  have hexact : Approximates (.ofMantissaAndAccuracy (m₁ * m₂) .exact) (m₁ * m₂ : Nat) := rfl
  exact isRounded_roundWithAccuracy hexponent hexact

/-- What is left of a division tells how the quotient goes on. -/
theorem approximates_div (n : Nat) {d : Nat} (hd : 0 < d) :
    Approximates (.ofMantissaAndAccuracy (n / d) (accuracyOfFraction (n % d) d)) (n / d) := by
  have hpos : (0 : ℚ) < d := Nat.cast_pos.mpr hd
  have hquotient : (n / d : ℚ) = (n / d : Nat) + (n % d : Nat) / d := by
    have hn : (n : ℚ) = d * (n / d : Nat) + (n % d : Nat) := by
      exact_mod_cast (Nat.div_add_mod n d).symm
    field_simp
    linarith
  have hlt : ((n % d : Nat) : ℚ) / d < 1 := by
    rw [div_lt_one hpos]
    exact_mod_cast Nat.mod_lt n hd
  rw [hquotient]
  unfold accuracyOfFraction
  split_ifs with hzero
  · rw [hzero]
    show _ = _
    simp
  · have hrest : (0 : ℚ) < (n % d : Nat) / d :=
      div_pos (Nat.cast_pos.mpr (Nat.pos_of_ne_zero hzero)) hpos
    cases hcompare : compare (2 * (n % d)) d with
    | lt =>
      have hhalf : ((n % d : Nat) : ℚ) / d < 1 / 2 := by
        rw [div_lt_div_iff₀ hpos two_pos]
        have := Nat.compare_eq_lt.mp hcompare
        exact_mod_cast (by omega : n % d * 2 < 1 * d)
      exact ⟨by linarith, by linarith⟩
    | eq =>
      have hhalf : ((n % d : Nat) : ℚ) / d = 1 / 2 := by
        rw [div_eq_div_iff hpos.ne' two_ne_zero]
        have := Nat.compare_eq_eq.mp hcompare
        exact_mod_cast (by omega : n % d * 2 = 1 * d)
      show _ = _
      rw [hhalf]
    | gt =>
      have hhalf : 1 / 2 < ((n % d : Nat) : ℚ) / d := by
        rw [div_lt_div_iff₀ two_pos hpos]
        have := Nat.compare_eq_gt.mp hcompare
        exact_mod_cast (by omega : 1 * d < n % d * 2)
      exact ⟨by linarith, by linarith⟩

/-- A dividend that is shifted far enough has a quotient with 53 bits at least. -/
theorem le_log2_div {m₁ m₂ : Nat} (shift : Nat) (h₁ : 0 < m₁) (h₂ : 0 < m₂)
    (hshift : 53 + m₂.log2 ≤ m₁.log2 + shift) : 52 ≤ (m₁ * 2 ^ shift / m₂).log2 := by
  have hlarge : 2 ^ 52 * m₂ ≤ m₁ * 2 ^ shift := by
    calc 2 ^ 52 * m₂ ≤ 2 ^ 52 * 2 ^ (m₂.log2 + 1) :=
          Nat.mul_le_mul_left _ Nat.lt_log2_self.le
      _ = 2 ^ (53 + m₂.log2) := by ring
      _ ≤ 2 ^ (m₁.log2 + shift) := Nat.pow_le_pow_right two_pos hshift
      _ = 2 ^ m₁.log2 * 2 ^ shift := pow_add 2 _ _
      _ ≤ m₁ * 2 ^ shift := Nat.mul_le_mul_right _ (Nat.log2_self_le h₁.ne')
  have hquotient : 2 ^ 52 ≤ m₁ * 2 ^ shift / m₂ := (Nat.le_div_iff_mul_le h₂).mpr hlarge
  exact (Nat.le_log2 (Nat.ne_zero_of_lt hquotient)).mpr hquotient

/-- A quotient of two numbers is rounded once. -/
theorem isRounded_div {m₁ m₂ : Nat} (e₁ e₂ : Int) (h₁ : 0 < m₁) (h₂ : 0 < m₂) :
    IsRounded (m₁ * 2 ^ e₁ / (m₂ * 2 ^ e₂))
      (UnpackedFloat.div Format.binary64 (.finite .positive m₁ e₁ h₁)
        (.finite .positive m₂ e₂ h₂)) := by
  obtain ⟨target, htarget, hle, hcases⟩ : ∃ target,
      min (e₁ - e₂) (Format.binary64.targetExponent (totalExponent m₁ e₁ - totalExponent m₂ e₂)) =
        target ∧ target ≤ e₁ - e₂ ∧
        (target ≤ m₁.log2 + e₁ - (m₂.log2 + e₂) - 53 ∨ target ≤ -1074) := by
    refine ⟨_, rfl, min_le_left _ _, ?_⟩
    have htotal : totalExponent m₁ e₁ - totalExponent m₂ e₂ = m₁.log2 + e₁ - (m₂.log2 + e₂) := by
      unfold totalExponent
      omega
    rw [htotal]
    exact (le_max_iff.mp (min_le_right _ _))
  obtain ⟨shift, hshift⟩ := Int.eq_ofNat_of_zero_le (Int.sub_nonneg.mpr hle)
  have hdiv : UnpackedFloat.div Format.binary64 (.finite .positive m₁ e₁ h₁)
      (.finite .positive m₂ e₂ h₂) =
      roundWithAccuracy Format.binary64 .positive (m₁ * 2 ^ shift / m₂) target
        (accuracyOfFraction (m₁ * 2 ^ shift % m₂) m₂) := by
    unfold UnpackedFloat.div divCore
    simp only [htarget, hshift, Int.toNat_natCast, Nat.shiftLeft_eq]
    rfl
  have hexponent : target ≤ exponentFor (m₁ * 2 ^ shift / m₂) target := by
    rcases hcases with hfar | hleast
    · have hlog := le_log2_div shift h₁ h₂ (by omega)
      exact le_max_of_le_left (by omega)
    · exact hleast.trans (le_exponentFor _ _)
  have hvalue : (m₁ * 2 ^ e₁ / (m₂ * 2 ^ e₂) : ℚ) =
      (m₁ * 2 ^ shift : Nat) / m₂ * 2 ^ target := by
    have he₁ : e₁ = shift + target + e₂ := by omega
    have hne : (m₂ : ℚ) ≠ 0 := Nat.cast_ne_zero.mpr h₂.ne'
    have hunit : (2 : ℚ) ^ e₂ ≠ 0 := (zpow_pos two_pos e₂).ne'
    rw [he₁, zpow_add₀ two_ne_zero, zpow_add₀ two_ne_zero, zpow_natCast]
    push_cast
    field_simp
  rw [hdiv, hvalue]
  exact isRounded_roundWithAccuracy hexponent (approximates_div _ h₂)

end TradingRules.Decimal
