/-
# What a watched evaluation computes

An evaluation that looks at its deadline computes, if there is always time, exactly what the plain
evaluation computes: the value of an expression, the truth of a condition, the rule that fires.
-/
import TradingRules.Evaluation.Watched

namespace TradingRules

namespace Watched

variable {α β : Type}

@[simp] theorem value_pure (v : α) : (pure v : Watched α).value = v := rfl

@[simp] theorem value_checkpoint_bind (f : Unit → Watched β) :
    (checkpoint >>= f).value = (f ()).value := rfl

/-- The value of a computation in two parts is that of the second part, given the first value. -/
@[simp] theorem value_bind (m : Watched α) (f : α → Watched β) :
    (m >>= f).value = (f m.value).value := by
  induction m with
  | done v => rfl
  | look next ih => exact ih

end Watched

/-- A watched expression has the value of the expression. -/
@[simp] theorem Expression.value_watched (now : Situation) (e : Expression) :
    (e.watched now).value = e.value now := rfl

/-- A watched condition has the truth of the condition, although it may skip the right side of a
connective. -/
theorem Condition.value_watched (now : Situation) (c : Condition) :
    (c.watched now).value = c.isTrue now := by
  induction c with
  | join connective left right ihl ihr =>
    cases connective with
    | and =>
      rw [Condition.watched, Condition.isTrue, Watched.value_checkpoint_bind, Watched.value_bind, ihl]
      cases left.isTrue now with
      | true => exact ihr
      | false => rfl
    | or =>
      rw [Condition.watched, Condition.isTrue, Watched.value_checkpoint_bind, Watched.value_bind, ihl]
      cases left.isTrue now with
      | true => rfl
      | false => exact ihr
  | compare left comparison right => rfl
  | holds e => rfl

/-- Going through rules under watch finds the first one whose condition is true. -/
theorem value_watchedFirst (now : Situation) (place : Nat) (rules : List Rule) :
    (watchedFirst now place rules).value = firstTrue now place rules := by
  induction rules generalizing place with
  | nil => rfl
  | cons r rest ih =>
    rw [watchedFirst, firstTrue, Watched.value_bind, Condition.value_watched]
    cases r.condition.isTrue now with
    | true => rfl
    | false => exact ih (place + 1)

/-- A watched strategy finds the rule that fires. -/
theorem Strategy.value_watched (s : Strategy) (now : Situation) :
    (s.watched now).value = s.firing? now :=
  value_watchedFirst now 0 s.rules

end TradingRules
