/-
# The range of the relative strength index

The relative strength index of finite prices is a number from zero to a hundred, unless the sums of
its rises and of its falls are both infinite: then it is no number. Every step towards it is rounded
on its own, and rounding keeps the order. The sums are finite if no price is too large, however long
the history is.
-/
import TradingRules.Indicator
import TradingRules.Proofs.Double.Sum

namespace TradingRules.Indicator

open Float.Model (UnpackedFloat Format)
open Float.Model.UnpackedFloat (pack unpack)
open TradingRules.Double (IsAtMost IsMagnitude Rounded isMagnitude_of_infinite le_iff order
  rational_finite unpack_div_of_infinite)

/-! ## Fixed numbers -/

/-- The rational of a positive number that is given by its parts. -/
theorem value_of_unpack {x : Float} {m : Nat} {e : Int} {hm : 0 < m}
    (h : x.toModel.unpack = .finite .positive m e hm) : Double.value x = (m : Int) * 2 ^ e := by
  unfold Double.value
  rw [h, rational_finite]
  rfl

/-- A positive number is a finite magnitude. -/
theorem isAtMost_value {x : Float} {m : Nat} {e : Int} {hm : 0 < m}
    (h : x.toModel.unpack = .finite .positive m e hm) : IsAtMost x (Double.value x) :=
  ⟨⟨congrArg Decimal.unsigned h, congrArg UnpackedFloat.isNaN h⟩,
    congrArg UnpackedFloat.isFinite h, le_rfl⟩

theorem unpack_one : (1.0 : Float).toModel.unpack =
    .finite .positive 4503599627370496 (-52) (by decide) := rfl

theorem unpack_hundred : (100.0 : Float).toModel.unpack =
    .finite .positive 7036874417766400 (-46) (by decide) := rfl

theorem unpack_neutral : neutral.toModel.unpack =
    .finite .positive 7036874417766400 (-47) (by decide) := rfl

theorem value_one : Double.value 1.0 = 1 := by
  rw [value_of_unpack unpack_one]
  norm_num

theorem value_hundred : Double.value 100.0 = 100 := by
  rw [value_of_unpack unpack_hundred]
  norm_num

theorem value_neutral : Double.value neutral = 50 := by
  rw [value_of_unpack unpack_neutral]
  norm_num

theorem isAtMost_zero : IsAtMost 0.0 0 := by
  have hunpack : (0.0 : Float).toModel.unpack = .zero .positive := rfl
  exact ⟨⟨congrArg Decimal.unsigned hunpack, congrArg UnpackedFloat.isNaN hunpack⟩,
    congrArg UnpackedFloat.isFinite hunpack, le_rfl⟩

theorem isAtMost_one : IsAtMost 1.0 1 := by
  rw [← value_one]
  exact isAtMost_value unpack_one

theorem isAtMost_hundred : IsAtMost 100.0 100 := by
  rw [← value_hundred]
  exact isAtMost_value unpack_hundred

theorem isAtMost_neutral : IsAtMost neutral 100 := by
  obtain ⟨hmagnitude, hfinite, -⟩ := isAtMost_value unpack_neutral
  refine ⟨hmagnitude, hfinite, ?_⟩
  rw [value_neutral]
  norm_num

/-! ## Strength -/

/-- What is rounded from at most a hundred is at most a hundred. -/
theorem isAtMost_of_rounded {q : ℚ} {x : Float} (h : Rounded q x) (hle : q ≤ 100) :
    IsAtMost x 100 := by
  rw [← value_hundred] at hle ⊢
  exact h.isAtMost isAtMost_hundred.isMagnitude isAtMost_hundred.isFinite hle

/-- A magnitude of at most a hundred lies in the range of the index. -/
theorem range_of_isAtMost {x : Float} (h : IsAtMost x 100) : 0.0 ≤ x ∧ x ≤ 100.0 := by
  have hrounded := h.isMagnitude.rounded h.isFinite
  constructor
  · exact hrounded.le_of_value_le isAtMost_zero.isMagnitude isAtMost_zero.isFinite
      h.isMagnitude.value_nonneg
  · refine hrounded.le (isAtMost_hundred.isMagnitude.rounded isAtMost_hundred.isFinite) ?_
    rw [value_hundred]
    exact h.value_le

/-- A hundred divided by one and a magnitude more is at most a hundred. -/
theorem isAtMost_share {q : Float} (hq : IsMagnitude q) : IsAtMost (100.0 / (1.0 + q)) 100 := by
  have hsum : IsMagnitude (1.0 + q) := isAtMost_one.isMagnitude.add hq
  rcases hsum.finite_or_infinite with hfinite | hinfinite
  · -- adding to one and rounding does not go below one
    have hone : 1 ≤ Double.value (1.0 + q) := by
      rw [← value_one]
      exact (isAtMost_one.isMagnitude.value_le hsum hfinite
        (isAtMost_one.isMagnitude.le_add hq isAtMost_one.isFinite)).2
    refine isAtMost_of_rounded (isAtMost_hundred.isMagnitude.rounded_div hsum
      isAtMost_hundred.isFinite hfinite (by linarith)) ?_
    rw [value_hundred]
    exact div_le_self (by norm_num) hone
  · refine isAtMost_of_rounded (Double.rounded_div_of_infinite isAtMost_hundred.isMagnitude
      isAtMost_hundred.isFinite hinfinite) ?_
    norm_num

/-- A hundred without the share of a magnitude lies in the range of the index. -/
theorem isAtMost_rest {q : Float} (hq : IsMagnitude q) :
    IsAtMost (100.0 - 100.0 / (1.0 + q)) 100 := by
  have hshare := isAtMost_share hq
  have hle : Double.value (100.0 / (1.0 + q)) ≤ Double.value 100.0 := by
    rw [value_hundred]
    exact hshare.value_le
  refine isAtMost_of_rounded (isAtMost_hundred.isMagnitude.rounded_sub hshare.isMagnitude
    isAtMost_hundred.isFinite hshare.isFinite hle) ?_
  rw [value_hundred]
  exact sub_le_self _ hshare.isMagnitude.value_nonneg

/-- A finite magnitude that stands for nothing equals zero. -/
theorem beq_zero {x : Float} (h : IsMagnitude x) (hfinite : x.isFinite = true)
    (hvalue : Double.value x = 0) : (x == 0.0) = true := by
  have hzero : Rounded (Double.value 0.0) 0.0 :=
    isAtMost_zero.isMagnitude.rounded isAtMost_zero.isFinite
  have hle : x ≤ 0.0 := (h.rounded hfinite).le hzero hvalue.le
  have hge : 0.0 ≤ x := hzero.le (h.rounded hfinite) hvalue.ge
  rw [le_iff] at hle hge
  rw [Double.order_swap] at hge
  rw [Double.beq_iff]
  rcases hle with horder | horder
  · rw [horder] at hge
    rcases hge with hge | hge <;> cases hge
  · exact horder

/-- The quotient of two magnitudes is one, unless both are infinite or zero divides. -/
theorem isMagnitude_quotient {a b : Float} (ha : IsMagnitude a) (hb : IsMagnitude b)
    (hzero : ¬ (b == 0.0) = true) (hfinite : a.isFinite = true ∨ b.isFinite = true) :
    IsMagnitude (a / b) := by
  rcases hb.finite_or_infinite with hb' | hb'
  · rcases ha.finite_or_infinite with ha' | ha'
    · exact (ha.rounded_div hb ha' hb' (mt (beq_zero hb hb') hzero)).isMagnitude
    · exact isMagnitude_of_infinite (unpack_div_of_infinite ha' hb hb')
  · have ha' := hfinite.resolve_right (Double.not_isFinite_of_infinite hb')
    exact (Double.rounded_div_of_infinite ha ha' hb').isMagnitude

/-- The strength of two averages lies in the range of the index unless both are infinite. -/
theorem isAtMost_strength {a b : Float} (ha : IsMagnitude a) (hb : IsMagnitude b)
    (hfinite : a.isFinite = true ∨ b.isFinite = true) : IsAtMost (strength a b) 100 := by
  unfold strength
  split_ifs with hzero
  · exact isAtMost_hundred
  · exact isAtMost_rest (isMagnitude_quotient ha hb hzero hfinite)

/-- The strength of two infinite averages is no number. -/
theorem isNaN_strength {a b : Float} (ha : a.toModel.unpack = .infinity .positive)
    (hb : b.toModel.unpack = .infinity .positive) : (strength a b).isNaN = true := by
  have hzero : ¬ (b == 0.0) = true := by
    rw [Double.beq_iff]
    unfold order
    rw [hb]
    exact nofun
  -- what is no number stays none in every operation
  have hsum : (1.0 + a / b).toModel.unpack = .notANumber := by
    show unpack Format.binary64 (pack Format.binary64
      (UnpackedFloat.add Format.binary64 (1.0 : Float).toModel.unpack (a / b).toModel.unpack)) = _
    rw [Double.unpack_div_of_infinite_infinite ha hb]
    rfl
  have hshare : (100.0 / (1.0 + a / b)).toModel.unpack = .notANumber := by
    show unpack Format.binary64 (pack Format.binary64
      (UnpackedFloat.div Format.binary64 (100.0 : Float).toModel.unpack
        (1.0 + a / b).toModel.unpack)) = _
    rw [hsum]
    rfl
  unfold strength
  rw [if_neg hzero]
  show (unpack Format.binary64 (pack Format.binary64
    (UnpackedFloat.sub Format.binary64 (100.0 : Float).toModel.unpack
      (100.0 / (1.0 + a / b)).toModel.unpack))).isNaN = true
  rw [hshare]
  rfl

/-! ## Changes -/

theorem exists_of_mem_changes {prices : List Float} {change : Float} (h : change ∈ changes prices) :
    ∃ earlier ∈ prices, ∃ later ∈ prices, change = later - earlier := by
  unfold changes at h
  rw [← List.map_uncurry_zip_eq_zipWith] at h
  obtain ⟨⟨earlier, later⟩, hpair, rfl⟩ := List.mem_map.mp h
  obtain ⟨hearlier, hlater⟩ := List.of_mem_zip hpair
  exact ⟨earlier, hearlier, later, List.mem_of_mem_tail hlater, rfl⟩

/-- A change of finite prices is rounded from their distance. -/
theorem exists_rounded_abs {prices : List Float} (hfinite : ∀ price ∈ prices, price.isFinite = true)
    {change : Float} (h : change ∈ changes prices) :
    ∃ earlier ∈ prices, ∃ later ∈ prices,
      Rounded |Double.value later - Double.value earlier| change.abs := by
  obtain ⟨earlier, hearlier, later, hlater, rfl⟩ := exists_of_mem_changes h
  exact ⟨earlier, hearlier, later, hlater,
    Double.rounded_abs_sub (hfinite _ hlater) (hfinite _ hearlier)⟩

/-- A number above zero is a magnitude. -/
theorem isMagnitude_of_pos {x : Float} (h : x > 0.0) : IsMagnitude x := by
  have hzero : (0.0 : Float).toModel.unpack = .zero .positive := rfl
  have horder : order 0.0 x = some .lt := Double.lt_iff.mp h
  unfold order at horder
  rw [hzero] at horder
  have hparts : Decimal.unsigned x.toModel.unpack = true ∧ x.toModel.unpack.isNaN = false := by
    revert horder
    cases x.toModel.unpack with
    | notANumber => exact nofun
    | zero sign => exact nofun
    | infinity sign => cases sign <;> first | exact fun _ => ⟨rfl, rfl⟩ | exact nofun
    | finite sign m e hm => cases sign <;> first | exact fun _ => ⟨rfl, rfl⟩ | exact nofun
  exact ⟨hparts.1, hparts.2⟩

/-- A magnitude that is rounded from some number is that for both of its signs. -/
theorem rounded_of_abs {q : ℚ} {x : Float} (hx : IsMagnitude x) (h : Rounded q x.abs) : Rounded q x := by
  obtain ⟨m, e, hcanonical, hcontains, hunpack⟩ := h
  rw [Double.unpack_abs, Double.abs_of_unsigned hx.isUnsigned] at hunpack
  exact ⟨m, e, hcanonical, hcontains, hunpack⟩

/-- The changes that are rises. -/
def rises (changes : List Float) : List Float :=
  changes.filter (· > 0.0)

/-- The sizes of the changes that are no rises. -/
def falls (changes : List Float) : List Float :=
  (changes.filter fun change => !(change > 0.0)).map Float.abs

theorem gains_eq (changes : List Float) : gains changes = (rises changes).foldl (· + ·) 0.0 := rfl

theorem losses_eq (changes : List Float) : losses changes = (falls changes).foldl (· + ·) 0.0 := by
  rw [losses, falls, List.foldl_map]

/-- The terms of both sums are rounded from distances of prices. -/
theorem exists_rounded_term {prices : List Float} (hfinite : ∀ price ∈ prices, price.isFinite = true)
    {term : Float} (h : term ∈ rises (changes prices) ++ falls (changes prices)) :
    ∃ earlier ∈ prices, ∃ later ∈ prices,
      Rounded |Double.value later - Double.value earlier| term := by
  rcases List.mem_append.mp h with h | h
  · obtain ⟨hmem, hrise⟩ := List.mem_filter.mp h
    obtain ⟨earlier, hearlier, later, hlater, hrounded⟩ := exists_rounded_abs hfinite hmem
    exact ⟨earlier, hearlier, later, hlater,
      rounded_of_abs (isMagnitude_of_pos (of_decide_eq_true hrise)) hrounded⟩
  · obtain ⟨change, hmem, rfl⟩ := List.mem_map.mp h
    exact exists_rounded_abs hfinite (List.mem_filter.mp hmem).1

/-- The sums of rises and falls are magnitudes. -/
theorem isMagnitude_sums {prices : List Float} (hfinite : ∀ price ∈ prices, price.isFinite = true) :
    IsMagnitude (gains (changes prices)) ∧ IsMagnitude (losses (changes prices)) := by
  have hterm : ∀ term ∈ rises (changes prices) ++ falls (changes prices), IsMagnitude term := by
    intro term h
    obtain ⟨earlier, -, later, -, hrounded⟩ := exists_rounded_term hfinite h
    exact hrounded.isMagnitude
  obtain ⟨hrises, hfalls⟩ := List.forall_mem_append.mp hterm
  rw [gains_eq, losses_eq]
  exact ⟨isAtMost_zero.isMagnitude.foldl_add hrises, isAtMost_zero.isMagnitude.foldl_add hfalls⟩

/-- The sums of rises and falls are finite if the prices are small enough. -/
theorem isFinite_sums {prices : List Float} (hfinite : ∀ price ∈ prices, price.isFinite = true)
    (hsmall : ∀ price ∈ prices, |Double.value price| ≤ 2 ^ 967) :
    (gains (changes prices)).isFinite = true ∧ (losses (changes prices)).isFinite = true := by
  have hterm : ∀ term ∈ rises (changes prices) ++ falls (changes prices),
      IsAtMost term (2 ^ (968 : Int)) := by
    intro term h
    obtain ⟨earlier, hearlier, later, hlater, hrounded⟩ := exists_rounded_term hfinite h
    refine hrounded.isAtMost_zpow (by decide) (by decide) ?_
    calc |Double.value later - Double.value earlier|
        ≤ |Double.value later| + |Double.value earlier| := abs_sub _ _
      _ ≤ 2 ^ 967 + 2 ^ 967 := add_le_add (hsmall later hlater) (hsmall earlier hearlier)
      _ = 2 ^ (968 : Int) := by
        rw [← mul_two, ← pow_succ]
        exact (zpow_natCast 2 968).symm
  obtain ⟨hrises, hfalls⟩ := List.forall_mem_append.mp hterm
  have hstart : IsAtMost 0.0 (2 ^ ((968 : Int) + 54)) :=
    ⟨isAtMost_zero.isMagnitude, isAtMost_zero.isFinite,
      isAtMost_zero.value_le.trans (zpow_nonneg two_pos.le _)⟩
  rw [gains_eq, losses_eq]
  exact ⟨(IsAtMost.foldl_add (by decide) (by decide) hstart hrises).isFinite,
    (IsAtMost.foldl_add (by decide) (by decide) hstart hfalls).isFinite⟩

/-! ## Averages -/

/-- A positive period is rounded to a finite number that is not below one. -/
theorem one_le_period {period : UInt64} (h : period ≠ 0) :
    IsAtMost period.toFloat (2 ^ (64 : Int)) ∧ 1 ≤ Double.value period.toFloat := by
  have hrounded : Rounded ((period.toNat : Int) * 2 ^ (0 : Int)) period.toFloat :=
    Double.rounded_of_isRounded (Double.isRounded_normalize 0 (Int.natCast_nonneg _)) rfl
  rw [zpow_zero, mul_one, Int.cast_natCast] at hrounded
  have hpos : 1 ≤ period.toNat := by
    rw [Nat.one_le_iff_ne_zero]
    exact fun hzero => h (UInt64.toNat_inj.mp hzero)
  have hmost : IsAtMost period.toFloat (2 ^ (64 : Int)) := by
    refine hrounded.isAtMost_zpow (by decide) (by decide) ?_
    have hlt : (period.toNat : ℚ) < 2 ^ 64 := by exact_mod_cast period.toNat_lt
    exact hlt.le
  have hle : 1.0 ≤ period.toFloat := by
    refine hrounded.le_of_value_le isAtMost_one.isMagnitude isAtMost_one.isFinite ?_
    rw [value_one]
    exact_mod_cast hpos
  refine ⟨hmost, ?_⟩
  rw [← value_one]
  exact (isAtMost_one.isMagnitude.value_le hmost.isMagnitude hmost.isFinite hle).2

/-- The average of a magnitude over a period is finite if the magnitude is, and infinite otherwise. -/
theorem average_cases {sum : Float} (hsum : IsMagnitude sum) {period : UInt64} (h : period ≠ 0) :
    IsMagnitude (sum / period.toFloat) ∧
      (sum.isFinite = true → (sum / period.toFloat).isFinite = true) ∧
      (sum.toModel.unpack = .infinity .positive →
        (sum / period.toFloat).toModel.unpack = .infinity .positive) := by
  obtain ⟨hperiod, hone⟩ := one_le_period h
  rcases hsum.finite_or_infinite with hfinite | hinfinite
  · have hrounded := hsum.rounded_div hperiod.isMagnitude hfinite hperiod.isFinite (by linarith)
    refine ⟨hrounded.isMagnitude, fun _ => ?_, fun hinfinite => ?_⟩
    · exact (hrounded.value_le hsum hfinite (div_le_self hsum.value_nonneg hone)).1
    · exact absurd hfinite (Double.not_isFinite_of_infinite hinfinite)
  · -- the period is finite, so that it cannot make up for an infinite sum
    have haverage := unpack_div_of_infinite hinfinite hperiod.isMagnitude hperiod.isFinite
    refine ⟨isMagnitude_of_infinite haverage, fun hfinite => ?_, fun _ => haverage⟩
    exact absurd hfinite (Double.not_isFinite_of_infinite hinfinite)

/-! ## The index -/

/-- The changes that the relative strength index over a period is computed from. -/
def recentChanges (period : UInt64) (prices : List Float) : List Float :=
  changes (window (period.toNat + 1) prices)

/-- The relative strength index is computed, and both of its sums are infinite. -/
def BothOverflow (period : UInt64) (prices : List Float) : Prop :=
  ¬ (period = 0 ∨ prices.length ≤ period.toNat) ∧
    (gains (recentChanges period prices)).isFinite = false ∧
    (losses (recentChanges period prices)).isFinite = false

theorem mem_of_mem_window {α : Type} {n : Nat} {entries : List α} {entry : α}
    (h : entry ∈ window n entries) : entry ∈ entries :=
  List.mem_of_mem_drop h

/-- The index lies in its range unless both of its sums are infinite. -/
theorem isAtMost_rsi {period : UInt64} {prices : List Float}
    (hfinite : ∀ price ∈ prices, price.isFinite = true) (h : ¬ BothOverflow period prices) :
    IsAtMost (rsi period prices) 100 := by
  unfold rsi
  split_ifs with hshort
  · exact isAtMost_neutral
  · obtain ⟨hgains, hlosses⟩ :=
      isMagnitude_sums fun price hprice => hfinite price (mem_of_mem_window hprice)
    have hperiod := (not_or.mp hshort).1
    obtain ⟨hgain, hgainFinite, -⟩ := average_cases hgains hperiod
    obtain ⟨hloss, hlossFinite, -⟩ := average_cases hlosses hperiod
    refine isAtMost_strength hgain hloss ?_
    -- if neither average is finite, then neither sum is
    by_contra hneither
    obtain ⟨hg, hl⟩ := not_or.mp hneither
    exact h ⟨hshort, Bool.eq_false_iff.mpr (mt hgainFinite hg), Bool.eq_false_iff.mpr (mt hlossFinite hl)⟩

/-- The index is no number if both of its sums are infinite. -/
theorem isNaN_rsi {period : UInt64} {prices : List Float}
    (hfinite : ∀ price ∈ prices, price.isFinite = true) (h : BothOverflow period prices) :
    (rsi period prices).isNaN = true := by
  obtain ⟨hlong, hgainsOver, hlossesOver⟩ := h
  obtain ⟨hgains, hlosses⟩ :=
    isMagnitude_sums fun price hprice => hfinite price (mem_of_mem_window hprice)
  have hperiod := (not_or.mp hlong).1
  have hgainsInfinite := hgains.finite_or_infinite.resolve_left (Bool.eq_false_iff.mp hgainsOver)
  have hlossesInfinite := hlosses.finite_or_infinite.resolve_left (Bool.eq_false_iff.mp hlossesOver)
  unfold rsi
  rw [if_neg hlong]
  exact isNaN_strength ((average_cases hgains hperiod).2.2 hgainsInfinite)
    ((average_cases hlosses hperiod).2.2 hlossesInfinite)

/-- **The range of the relative strength index.** For finite prices and every period it is a number
from zero to a hundred, unless the sums of the rises and of the falls that it is computed from are
both infinite: then, and only then, it is no number. They are finite, however long the history is,
if no price is larger than `2 ^ 967`. -/
theorem rsi_exact (period : UInt64) {prices : List Float}
    (hfinite : ∀ price ∈ prices, price.isFinite = true) :
    (¬ BothOverflow period prices → 0.0 ≤ rsi period prices ∧ rsi period prices ≤ 100.0) ∧
      (BothOverflow period prices ↔ (rsi period prices).isNaN = true) ∧
      ((∀ price ∈ prices, |Double.value price| ≤ 2 ^ 967) → ¬ BothOverflow period prices) := by
  refine ⟨fun h => range_of_isAtMost (isAtMost_rsi hfinite h), ⟨isNaN_rsi hfinite, fun hnan => ?_⟩,
    fun hsmall h => ?_⟩
  · by_contra h
    exact Bool.false_ne_true ((isAtMost_rsi hfinite h).isMagnitude.isNaN.symm.trans hnan)
  · obtain ⟨-, hover, -⟩ := h
    have hgains : (gains (recentChanges period prices)).isFinite = true :=
      (isFinite_sums (fun price hprice => hfinite price (mem_of_mem_window hprice))
        fun price hprice => hsmall price (mem_of_mem_window hprice)).1
    exact Bool.false_ne_true (hover.symm.trans hgains)

/-- Small prices have an index in the range, and with steps that are too large it is no number. -/
theorem rsi_of_calmPrices :
    (0.0 ≤ rsi 2 [1.0, 100.0, 1.0] ∧ rsi 2 [1.0, 100.0, 1.0] ≤ 100.0) ∧
      (rsi 4 [0.0, 1e308, 0.0, 1e308, 0.0]).isNaN = true := by
  have hfinite : ∀ price ∈ [1.0, 100.0, 1.0], price.isFinite = true := by decide +kernel
  have hpower : (2 : ℚ) ^ 7 ≤ 2 ^ 967 := pow_le_pow_right₀ one_le_two (by decide)
  have hone : |Double.value 1.0| ≤ 2 ^ 967 := by
    refine le_trans ?_ hpower
    rw [value_one]
    norm_num
  have hhundred : |Double.value 100.0| ≤ 2 ^ 967 := by
    refine le_trans ?_ hpower
    rw [value_hundred]
    norm_num
  have hsmall : ∀ price ∈ [1.0, 100.0, 1.0], |Double.value price| ≤ 2 ^ 967 :=
    List.forall_mem_cons.mpr ⟨hone, List.forall_mem_cons.mpr ⟨hhundred,
      List.forall_mem_singleton.mpr hone⟩⟩
  have hcalm := rsi_exact 2 hfinite
  have hover : BothOverflow 4 [0.0, 1e308, 0.0, 1e308, 0.0] :=
    ⟨by decide +kernel, by decide +kernel, by decide +kernel⟩
  exact ⟨hcalm.1 (hcalm.2.2 hsmall), (rsi_exact 4 (by decide +kernel)).2.1.mp hover⟩

/-- The index of five finite prices is no number, so that it lies in no range. -/
theorem rsi_no_number :
    (∀ price ∈ [0.0, 1e308, 0.0, 1e308, 0.0], price.isFinite = true) ∧
      (rsi 4 [0.0, 1e308, 0.0, 1e308, 0.0]).isNaN = true ∧
      ¬ (0.0 ≤ rsi 4 [0.0, 1e308, 0.0, 1e308, 0.0] ∧ rsi 4 [0.0, 1e308, 0.0, 1e308, 0.0] ≤ 100.0) := by
  decide +kernel

end TradingRules.Indicator
