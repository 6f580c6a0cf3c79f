/-
# How far a strategy looks back

A strategy sees of its situation what its expressions see. Apart from exponential averages these see
no more of a price history than its last prices, as many as the indicator with the longest look back
needs; and without an expression on its text they see nothing of the signal. So what a strategy does
not see cannot change which rule fires.
-/
import TradingRules.Evaluation.Basic
import TradingRules.Proofs.Condition.WellFormed
import TradingRules.Proofs.Indicator.History

namespace TradingRules

/-! ## Recent prices -/

/-- The last entries of the last entries are those of all. -/
theorem Indicator.window_window {α : Type} {n m : Nat} (h : n ≤ m) (entries : List α) :
    window n (window m entries) = window n entries := by
  unfold window
  rw [List.drop_drop, List.length_drop]
  congr 1
  omega

/-- Two markets have the same price and volume, and the same prices as far back as a number of them,
which both have. -/
structure Market.AgreeBack (n : Nat) (m m' : Market) : Prop where
  price : m.price = m'.price
  volume : m.volume = m'.volume
  le_length : n ≤ m.prices.length
  le_length' : n ≤ m'.prices.length
  recent : Indicator.window n m.prices = Indicator.window n m'.prices

theorem Market.AgreeBack.window_eq {n k : Nat} {m m' : Market} (h : m.AgreeBack n m') (hk : k ≤ n) :
    Indicator.window k m.prices = Indicator.window k m'.prices := by
  rw [← Indicator.window_window hk, h.recent, Indicator.window_window hk]

/-- An indicator other than an exponential average has one value for all histories that agree as far
back as it needs prices. -/
theorem Indicator.value_eq_of_agreeBack {i : Indicator} {n : Nat} {m m' : Market}
    (hkind : i.kind ≠ .ema) (hneeded : i.needed ≤ n) (h : m.AgreeBack n m') :
    i.value m.prices = i.value m'.prices := by
  have hlength := h.le_length
  have hlength' := h.le_length'
  obtain ⟨kind, period⟩ := i
  cases kind with
  | ema => exact absurd rfl hkind
  | rsi =>
    have hneeded : period.toNat + 1 ≤ n := hneeded
    have hlong : m.prices.length ≤ period.toNat ↔ m'.prices.length ≤ period.toNat := by omega
    show rsi period m.prices = rsi period m'.prices
    unfold rsi
    simp only [hlong, h.window_eq hneeded]
  | sma =>
    have hneeded : period.toNat ≤ n := hneeded
    have hlong : m.prices.length < period.toNat ↔ m'.prices.length < period.toNat := by omega
    show sma period m.prices = sma period m'.prices
    unfold sma
    simp only [hlong, h.window_eq hneeded]

/-! ## What a strategy sees -/

/-- A condition sees what its expressions see. -/
theorem Condition.isTrue_congr {now now' : Situation} {c : Condition}
    (h : ∀ e ∈ c.expressions, e.value now = e.value now') : c.isTrue now = c.isTrue now' := by
  induction c with
  | join connective left right ihl ihr =>
    have hleft := ihl fun e he => h e (List.mem_append_left _ he)
    have hright := ihr fun e he => h e (List.mem_append_right _ he)
    cases connective with
    | and => rw [isTrue, isTrue, hleft, hright]
    | or => rw [isTrue, isTrue, hleft, hright]
  | compare left comparison right =>
    have hleft := h left List.mem_cons_self
    have hright := h right (List.mem_cons_of_mem _ List.mem_cons_self)
    rw [isTrue, isTrue, hleft, hright]
  | holds e => rw [isTrue, isTrue, h e List.mem_cons_self]

theorem firstTrue_congr {now now' : Situation} {rules : List Rule}
    (h : ∀ r ∈ rules, r.condition.isTrue now = r.condition.isTrue now') (place : Nat) :
    firstTrue now place rules = firstTrue now' place rules := by
  induction rules generalizing place with
  | nil => rfl
  | cons r rest ih =>
    rw [firstTrue, firstTrue, h r List.mem_cons_self,
      ih fun r' hr' => h r' (List.mem_cons_of_mem r hr')]

namespace Strategy

/-- The expressions in the conditions of a strategy. -/
def expressions (s : Strategy) : List Expression :=
  s.rules.flatMap (·.condition.expressions)

/-- A strategy sees what its expressions see. -/
theorem firing?_congr {now now' : Situation} {s : Strategy}
    (h : ∀ e ∈ s.expressions, e.value now = e.value now') : s.firing? now = s.firing? now' := by
  refine firstTrue_congr (fun r hr => ?_) 0
  exact Condition.isTrue_congr fun e he => h e (List.mem_flatMap.mpr ⟨r, hr, he⟩)

end Strategy

/-- How many of the last prices an expression looks at. An exponential average, which looks at all of
them, is counted with the prices that it needs. -/
def Expression.lookBack : Expression → Nat
  | .indicator i => i.needed
  | .tweetContains _ | .volume | .price | .literal _ => 0

/-- An expression other than an exponential average has one value for all markets that agree as far
back as it looks. -/
theorem Expression.value_eq_of_agreeBack {e : Expression} {n : Nat} {m m' : Market} (signal : Signal)
    (hkind : ∀ period, e ≠ .indicator ⟨.ema, period⟩) (hback : e.lookBack ≤ n)
    (h : m.AgreeBack n m') : e.value ⟨signal, m⟩ = e.value ⟨signal, m'⟩ := by
  cases e with
  | tweetContains text => rfl
  | volume => exact congrArg Operand.number h.volume
  | price => exact congrArg Operand.number h.price
  | literal x => rfl
  | indicator i =>
    refine congrArg Operand.number (Indicator.value_eq_of_agreeBack ?_ hback h)
    intro hema
    exact hkind i.period (hema ▸ rfl)

/-- An expression on other things than the text of the signal has one value for all signals. -/
theorem Expression.value_eq_of_ne_tweetContains {e : Expression}
    (hkind : ∀ text, e ≠ .tweetContains text) (signal signal' : Signal) (market : Market) :
    e.value ⟨signal, market⟩ = e.value ⟨signal', market⟩ := by
  cases e with
  | tweetContains text => exact absurd rfl (hkind text)
  | volume => rfl
  | price => rfl
  | indicator i => rfl
  | literal x => rfl

namespace Strategy

/-- How many of the last prices a strategy looks at: as many as the expression that looks at most. -/
def lookBack (s : Strategy) : Nat :=
  (s.expressions.map Expression.lookBack).max?.getD 0

theorem lookBack_le {s : Strategy} {e : Expression} (h : e ∈ s.expressions) :
    e.lookBack ≤ s.lookBack :=
  List.le_max?_getD_of_mem (List.mem_map_of_mem h)

/-- **What cannot change which rule fires.** For a strategy without exponential averages, all prices
but the last ones, as many as it looks at; and for a strategy without expressions on the text of the
signal, the signal. -/
theorem lookBack_exact (s : Strategy) :
    ((∀ period, .indicator ⟨.ema, period⟩ ∉ s.expressions) →
      ∀ (signal : Signal) (m m' : Market), m.AgreeBack s.lookBack m' →
        s.firing? ⟨signal, m⟩ = s.firing? ⟨signal, m'⟩) ∧
    ((∀ text, .tweetContains text ∉ s.expressions) →
      ∀ (signal signal' : Signal) (market : Market),
        s.firing? ⟨signal, market⟩ = s.firing? ⟨signal', market⟩) := by
  constructor
  · intro hema signal m m' hagree
    refine firing?_congr fun e he => ?_
    refine Expression.value_eq_of_agreeBack signal ?_ (lookBack_le he) hagree
    rintro period rfl
    exact hema period he
  · intro htext signal signal' market
    refine firing?_congr fun e he => ?_
    refine Expression.value_eq_of_ne_tweetContains ?_ signal signal' market
    rintro text rfl
    exact htext text he

/-- A strategy that looks at three prices: two changes are three prices, too. -/
def reboundStrategy : Strategy where
  name := "rebound"
  rules :=
    [⟨.join .and (.compare .price .greater (.indicator ⟨.sma, 3⟩))
        (.compare (.indicator ⟨.rsi, 2⟩) .less (.literal 60)), []⟩,
      ⟨.compare (.indicator ⟨.sma, 2⟩) .less .volume, []⟩]

/-- The strategy does the same after a crash and without one, for every signal. -/
theorem lookBack_reboundStrategy :
    reboundStrategy.lookBack = 3 ∧
      reboundStrategy.firing? ⟨⟨"moon"⟩, ⟨5.0, 9.0, [3.0, 4.0, 3.5]⟩⟩ =
        reboundStrategy.firing? ⟨⟨"moon"⟩, ⟨5.0, 9.0, [900.0, 0.1, 3.0, 4.0, 3.5]⟩⟩ ∧
      reboundStrategy.firing? ⟨⟨"moon"⟩, ⟨5.0, 9.0, [3.0, 4.0, 3.5]⟩⟩ =
        reboundStrategy.firing? ⟨⟨""⟩, ⟨5.0, 9.0, [3.0, 4.0, 3.5]⟩⟩ := by
  have hback : reboundStrategy.lookBack = 3 := by decide +kernel
  have hema : ∀ period, .indicator ⟨.ema, period⟩ ∉ reboundStrategy.expressions := by
    intro period
    simp [expressions, reboundStrategy, Condition.expressions]
  have htext : ∀ text, .tweetContains text ∉ reboundStrategy.expressions := by
    intro text
    simp [expressions, reboundStrategy, Condition.expressions]
  obtain ⟨hhistory, hsignal⟩ := lookBack_exact reboundStrategy
  refine ⟨hback, hhistory hema _ _ _ ⟨rfl, rfl, ?_, ?_, ?_⟩, hsignal htext _ _ _⟩
  · rw [hback]
    decide
  · rw [hback]
    decide
  · rw [hback]
    decide +kernel

end Strategy

end TradingRules
