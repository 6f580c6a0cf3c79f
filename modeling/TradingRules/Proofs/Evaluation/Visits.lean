/-
# What an evaluation visits, and what a deadline can change

An evaluation visits conditions and expressions in a fixed order, and skips the right side of a
connective when the left side decides. It looks at its deadline once before every visit. So a
deadline that is found over at one of these looks ends the evaluation there, and one that is not
changes nothing: the rule that fires is the first one whose condition holds.
-/
import Mathlib.Data.Nat.Find
import Mathlib.Tactic.ByContra
import Mathlib.Tactic.Push
import TradingRules.Proofs.Evaluation.Watched

namespace TradingRules

open Watched (checkpoint)

/-! ## Visits -/

/-- What an evaluation visits: a condition, or an expression in one. -/
inductive Visit where
  | condition (c : Condition)
  | expression (e : Expression)
deriving DecidableEq, Repr

/-- What the evaluation of a condition visits, in its order. -/
def Condition.visits (now : Situation) : Condition → List Visit
  | .join .and left right =>
    .condition (.join .and left right) ::
      (left.visits now ++ if left.isTrue now then right.visits now else [])
  | .join .or left right =>
    .condition (.join .or left right) ::
      (left.visits now ++ if left.isTrue now then [] else right.visits now)
  | .compare left c right =>
    [.condition (.compare left c right), .expression left, .expression right]
  | .holds e => [.condition (.holds e), .expression e]

/-- What the search for the first of some rules whose condition is true visits. -/
def visitsFirst (now : Situation) : List Rule → List Visit
  | [] => []
  | r :: rest =>
    r.condition.visits now ++ if r.condition.isTrue now then [] else visitsFirst now rest

/-- What the evaluation of a strategy visits, up to and including the rule that fires. -/
def Strategy.visits (s : Strategy) (now : Situation) : List Visit :=
  visitsFirst now s.rules

/-! ## One look before every visit -/

namespace Watched

variable {α β : Type}

@[simp] theorem looks_pure (v : α) : (pure v : Watched α).looks = 0 := rfl

@[simp] theorem looks_checkpoint_bind (f : Unit → Watched β) :
    (checkpoint >>= f).looks = (f ()).looks + 1 := rfl

/-- A computation in two parts looks as often as its parts, the second one for the first value. -/
@[simp] theorem looks_bind (m : Watched α) (f : α → Watched β) :
    (m >>= f).looks = m.looks + (f m.value).looks := by
  induction m with
  | done v =>
    show (f v).looks = 0 + (f v).looks
    rw [Nat.zero_add]
  | look next ih =>
    show (next >>= f).looks + 1 = next.looks + 1 + (f next.value).looks
    rw [ih]
    omega

end Watched

/-- The evaluation of a condition looks once before every visit. -/
theorem Condition.looks_watched (now : Situation) (c : Condition) :
    (c.watched now).looks = (c.visits now).length := by
  induction c with
  | join connective left right ihl ihr =>
    cases connective with
    | and =>
      rw [Condition.watched, Condition.visits, Watched.looks_checkpoint_bind, Watched.looks_bind,
        Condition.value_watched, ihl, List.length_cons, List.length_append]
      cases left.isTrue now with
      | true =>
        show _ + (right.watched now).looks + 1 = _ + (right.visits now).length + 1
        rw [ihr]
      | false => rfl
    | or =>
      rw [Condition.watched, Condition.visits, Watched.looks_checkpoint_bind, Watched.looks_bind,
        Condition.value_watched, ihl, List.length_cons, List.length_append]
      cases left.isTrue now with
      | true => rfl
      | false =>
        show _ + (right.watched now).looks + 1 = _ + (right.visits now).length + 1
        rw [ihr]
  | compare left comparison right => rfl
  | holds e => rfl

/-- The search among rules looks once before every visit. -/
theorem looks_watchedFirst (now : Situation) (place : Nat) (rules : List Rule) :
    (watchedFirst now place rules).looks = (visitsFirst now rules).length := by
  induction rules generalizing place with
  | nil => rfl
  | cons r rest ih =>
    rw [watchedFirst, visitsFirst, Watched.looks_bind, Condition.value_watched,
      Condition.looks_watched, List.length_append]
    cases r.condition.isTrue now with
    | true => rfl
    | false =>
      show _ + (watchedFirst now (place + 1) rest).looks = _ + (visitsFirst now rest).length
      rw [ih]

/-- The evaluation of a strategy looks once before every visit. -/
theorem Strategy.looks_watched (s : Strategy) (now : Situation) :
    (s.watched now).looks = (s.visits now).length :=
  looks_watchedFirst now 0 s.rules

/-! ## Runs -/

namespace Watched

variable {α : Type}

/-- A run in which no look finds the time over gives the value and looks as often as it can. -/
theorem run_of_forall (m : Watched α) {isOver : Nat → Bool} {before : Nat}
    (h : ∀ i < m.looks, isOver (before + i) = false) :
    m.run isOver before = (some m.value, before + m.looks) := by
  induction m generalizing before with
  | done v => rfl
  | look next ih =>
    have hfirst : isOver before = false := h 0 (Nat.succ_pos _)
    have hnext : ∀ i < next.looks, isOver (before + 1 + i) = false := by
      intro i hi
      have := h (i + 1) (Nat.succ_lt_succ hi)
      rwa [Nat.add_assoc, Nat.add_comm 1 i]
    rw [run, hfirst, if_neg Bool.false_ne_true, ih hnext, value, looks, Nat.add_assoc,
      Nat.add_comm 1]

/-- A run ends with the first look that finds the time over. -/
theorem run_of_isFirst (m : Watched α) {isOver : Nat → Bool} {before i : Nat} (hi : i < m.looks)
    (hover : isOver (before + i) = true) (hfirst : ∀ j < i, isOver (before + j) = false) :
    m.run isOver before = (none, before + i + 1) := by
  induction m generalizing before i with
  | done v => exact absurd hi (Nat.not_lt_zero i)
  | look next ih =>
    cases i with
    | zero =>
      rw [Nat.add_zero] at hover
      rw [run, if_pos hover, Nat.add_zero]
    | succ i =>
      have hnow : isOver before = false := hfirst 0 (Nat.succ_pos i)
      have hover' : isOver (before + 1 + i) = true := by
        rwa [Nat.add_assoc, Nat.add_comm 1 i]
      have hfirst' : ∀ j < i, isOver (before + 1 + j) = false := by
        intro j hj
        have := hfirst (j + 1) (Nat.succ_lt_succ hj)
        rwa [Nat.add_assoc, Nat.add_comm 1 j]
      rw [run, hnow, if_neg Bool.false_ne_true, ih (Nat.lt_of_succ_lt_succ hi) hover' hfirst',
        Nat.add_assoc before 1 i, Nat.add_comm 1 i]

end Watched

/-! ## What it means that a rule fires -/

/-- A condition holds: a connective is read as the connective of logic. -/
def Condition.Holds (now : Situation) : Condition → Prop
  | .join .and left right => left.Holds now ∧ right.Holds now
  | .join .or left right => left.Holds now ∨ right.Holds now
  | .compare left c right => c.apply (left.value now) (right.value now) = true
  | .holds e => (e.value now).isTrue = true

/-- A condition is found true exactly if it holds. -/
theorem Condition.isTrue_iff {now : Situation} {c : Condition} :
    c.isTrue now = true ↔ c.Holds now := by
  induction c with
  | join connective left right ihl ihr =>
    cases connective with
    | and => rw [Condition.isTrue, Condition.Holds, Bool.and_eq_true, ihl, ihr]
    | or => rw [Condition.isTrue, Condition.Holds, Bool.or_eq_true, ihl, ihr]
  | compare left comparison right => exact Iff.rfl
  | holds e => exact Iff.rfl

/-- No rule is found exactly if the condition of none holds. -/
theorem firstTrue_eq_none_iff {now : Situation} {place : Nat} {rules : List Rule} :
    firstTrue now place rules = none ↔ ∀ rule ∈ rules, ¬ rule.condition.Holds now := by
  induction rules generalizing place with
  | nil => simp [firstTrue]
  | cons r rest ih =>
    rw [firstTrue, List.forall_mem_cons, ← Condition.isTrue_iff]
    cases r.condition.isTrue now with
    | true => simp
    | false => simpa using ih

/-- Places count upwards from the given one. -/
theorem le_place_of_firstTrue {now : Situation} {place : Nat} {rules : List Rule} {f : Firing}
    (h : firstTrue now place rules = some f) : place ≤ f.place := by
  induction rules generalizing place with
  | nil => cases h
  | cons r rest ih =>
    rw [firstTrue] at h
    cases htrue : r.condition.isTrue now with
    | true =>
      rw [htrue] at h
      cases h
      exact Nat.le_refl _
    | false =>
      rw [htrue] at h
      exact Nat.le_of_succ_le (ih h)

/-- The rule that is found is the first one whose condition holds; places count from the given
one. -/
theorem firstTrue_eq_some_iff {now : Situation} {place i : Nat} {rules : List Rule} {rule : Rule} :
    firstTrue now place rules = some ⟨place + i, rule⟩ ↔
      rules[i]? = some rule ∧ rule.condition.Holds now ∧
        ∀ j < i, ∀ earlier, rules[j]? = some earlier → ¬ earlier.condition.Holds now := by
  induction rules generalizing place i with
  | nil => simp [firstTrue]
  | cons r rest ih =>
    rw [firstTrue]
    cases htrue : r.condition.isTrue now with
    | true =>
      have hholds : r.condition.Holds now := Condition.isTrue_iff.mp htrue
      cases i with
      | zero =>
        constructor
        · intro h
          cases h
          exact ⟨rfl, hholds, fun j hj => absurd hj (Nat.not_lt_zero j)⟩
        · rintro ⟨h, -, -⟩
          cases h
          rfl
      | succ i =>
        constructor
        · intro h
          have hplace : place = place + (i + 1) := congrArg Firing.place (Option.some.inj h)
          omega
        · rintro ⟨-, -, hfirst⟩
          exact absurd hholds (hfirst 0 (Nat.succ_pos i) r rfl)
    | false =>
      have hholds : ¬ r.condition.Holds now := by
        rw [← Condition.isTrue_iff, htrue]
        exact Bool.false_ne_true
      cases i with
      | zero =>
        constructor
        · intro h
          have hlater : place + 1 ≤ place + 0 := le_place_of_firstTrue h
          omega
        · rintro ⟨h, hrule, -⟩
          cases h
          exact absurd hrule hholds
      | succ i =>
        show firstTrue now (place + 1) rest = _ ↔ _
        have hplace : place + (i + 1) = place + 1 + i := by omega
        rw [hplace, ih]
        constructor
        · rintro ⟨hrule, hcondition, hfirst⟩
          refine ⟨hrule, hcondition, fun j hj earlier hearlier => ?_⟩
          cases j with
          | zero =>
            cases hearlier
            exact hholds
          | succ j => exact hfirst j (Nat.lt_of_succ_lt_succ hj) earlier hearlier
        · rintro ⟨hrule, hcondition, hfirst⟩
          exact ⟨hrule, hcondition, fun j hj => hfirst (j + 1) (Nat.succ_lt_succ hj)⟩

namespace Strategy

variable {s : Strategy} {now : Situation}

/-- The rule that fires is the first one whose condition holds. -/
theorem firing?_eq_some_iff {place : Nat} {rule : Rule} :
    s.firing? now = some ⟨place, rule⟩ ↔
      s.rules[place]? = some rule ∧ rule.condition.Holds now ∧
        ∀ j < place, ∀ earlier, s.rules[j]? = some earlier → ¬ earlier.condition.Holds now := by
  have h : firstTrue now 0 s.rules = some ⟨0 + place, rule⟩ ↔ _ := firstTrue_eq_some_iff
  rwa [Nat.zero_add] at h

/-! ## Deadlines -/

/-- An evaluation that never finds its deadline over gives the rule that fires. -/
theorem firingWithin_of_forall (d : Sandbox.Deadline) {isOver : Nat → Bool}
    (h : ∀ i < (s.visits now).length, isOver i = false) :
    ((s.watched now).run isOver 0).2 = (s.visits now).length ∧
      s.firingWithin now d isOver = .ok (s.firing? now) := by
  have hrun : (s.watched now).run isOver 0 =
      (some (s.watched now).value, (s.visits now).length) := by
    rw [← s.looks_watched now] at h ⊢
    rw [Watched.run_of_forall _ fun i hi => by rw [Nat.zero_add]; exact h i hi, Nat.zero_add]
  refine ⟨by rw [hrun], ?_⟩
  rw [firingWithin, hrun, s.value_watched now]

/-- An evaluation that finds its deadline over ends there with the notice of the deadline. -/
theorem firingWithin_of_isFirst (d : Sandbox.Deadline) {isOver : Nat → Bool} {i : Nat}
    (hi : i < (s.visits now).length) (hover : isOver i = true)
    (hfirst : ∀ j < i, isOver j = false) :
    ((s.watched now).run isOver 0).2 = i + 1 ∧
      s.firingWithin now d isOver = .error (.executionTimeout d.timeoutMs) := by
  have hrun : (s.watched now).run isOver 0 = (none, i + 1) := by
    rw [← s.looks_watched now] at hi
    have hover' : isOver (0 + i) = true := by rwa [Nat.zero_add]
    have hfirst' : ∀ j < i, isOver (0 + j) = false := by
      intro j hj
      rw [Nat.zero_add]
      exact hfirst j hj
    rw [Watched.run_of_isFirst (s.watched now) hi hover' hfirst', Nat.zero_add]
  refine ⟨by rw [hrun], ?_⟩
  rw [firingWithin, hrun]
  rfl

/-- **A deadline can end an evaluation but not change it.** The evaluation looks at its deadline
once before each of its visits. It fails, with the time of the deadline, exactly if one of these
looks finds the deadline over, and the first such look is its last. Otherwise it gives the rule that
fires: the first one whose condition holds, if there is one. A deadline that is never reached is
never found over, whatever the clock says, so under it there is no failure. -/
theorem firingWithin_exact (s : Strategy) (now : Situation) (d : Sandbox.Deadline)
    (isOver : Nat → Bool) :
    (s.firingWithin now d isOver = .error (.executionTimeout d.timeoutMs) ↔
      ∃ i < (s.visits now).length, isOver i = true) ∧
    (∀ i < (s.visits now).length, isOver i = true → (∀ j < i, isOver j = false) →
      ((s.watched now).run isOver 0).2 = i + 1) ∧
    ((∀ i < (s.visits now).length, isOver i = false) →
      ((s.watched now).run isOver 0).2 = (s.visits now).length ∧
        s.firingWithin now d isOver = .ok (s.firing? now)) ∧
    (∀ place rule, s.firing? now = some ⟨place, rule⟩ ↔
      s.rules[place]? = some rule ∧ rule.condition.Holds now ∧
        ∀ j < place, ∀ earlier, s.rules[j]? = some earlier → ¬ earlier.condition.Holds now) ∧
    (s.firing? now = none ↔ ∀ rule ∈ s.rules, ¬ rule.condition.Holds now) ∧
    ∀ clock : Nat → Nat,
      s.firingWithin now .unbounded (fun i => Sandbox.Deadline.unbounded.isOver (clock i) false) =
        .ok (s.firing? now) := by
  refine ⟨?_, fun i hi hover hfirst => (firingWithin_of_isFirst d hi hover hfirst).1,
    firingWithin_of_forall d, fun place rule => firing?_eq_some_iff, firstTrue_eq_none_iff,
    fun clock => (firingWithin_of_forall .unbounded fun _ _ => rfl).2⟩
  constructor
  · intro h
    by_contra hnone
    push Not at hnone
    have hok := (firingWithin_of_forall d fun i hi => Bool.eq_false_iff.mpr (hnone i hi)).2
    rw [h] at hok
    cases hok
  · intro h
    obtain ⟨hi, hover⟩ := Nat.find_spec h
    refine (firingWithin_of_isFirst d hi hover fun j hj => ?_).2
    exact Bool.eq_false_iff.mpr fun h' => Nat.find_min h hj ⟨Nat.lt_trans hj hi, h'⟩

end Strategy

end TradingRules
