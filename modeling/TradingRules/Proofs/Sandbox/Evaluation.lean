/-
# Evaluation in the sandbox refines plain evaluation

Whatever worker and caller do, an evaluation in the sandbox ends in one of three ways: the strategy is
refused and nothing is evaluated, the result is that of the plain evaluation, or time is over. The
last two come from the invariant of timed calls, with the plain evaluation as the value of the
watched one; that they differ from the first comes from the errors that validation can give.
-/
import TradingRules.Proofs.Evaluation.Watched
import TradingRules.Proofs.Sandbox.TimedCall
import TradingRules.Proofs.Sandbox.Walk

namespace TradingRules.Sandbox

/-! ## Validation never speaks of time -/

/-- A structure is not refused for want of time. -/
theorem checkStructure_ne_timeout {maxDepth : Nat} {root : Json} (ms : Nat) :
    checkStructure maxDepth root ≠ .error (.executionTimeout ms) := by
  intro h
  unfold checkStructure at h
  split at h
  · rename_i fault hfault
    obtain ⟨path, node, -, hoffends, -⟩ := structureFault?_eq_some_iff.mp hfault
    cases h
    cases hoffends
  · cases h

/-- A content is not refused for want of time. -/
theorem scanContent_ne_timeout {root : Json} (ms : Nat) :
    scanContent root ≠ .error (.executionTimeout ms) := by
  intro h
  unfold scanContent at h
  split at h <;> cases h

/-- Several structures are not refused for want of time. -/
theorem checkStructures_ne_timeout {maxDepth : Nat} {roots : List Json} (ms : Nat) :
    checkStructures maxDepth roots ≠ .error (.executionTimeout ms) := by
  induction roots with
  | nil =>
    intro h
    cases h
  | cons root rest ih =>
    intro h
    rw [checkStructures] at h
    cases hroot : checkStructure maxDepth root with
    | ok _ =>
      rw [hroot] at h
      exact ih h
    | error e =>
      rw [hroot] at h
      cases h
      exact checkStructure_ne_timeout ms hroot

/-- A strategy is not refused for want of time. -/
theorem validateStrategy_ne_timeout {limits : Limits} {s : Strategy} (ms : Nat) :
    validateStrategy limits s ≠ .error (.executionTimeout ms) := by
  intro h
  rw [validateStrategy] at h
  cases hstructures : checkStructures limits.maxDepth (s.rules.flatMap ruleTrees) with
  | ok _ =>
    rw [hstructures] at h
    simp only [bind, Except.bind] at h
    exact scanContent_ne_timeout ms h
  | error e =>
    rw [hstructures] at h
    cases h
    exact checkStructures_ne_timeout ms hstructures

/-! ## The evaluation of a strategy -/

variable {limits : Limits} {s : Strategy} {now : Situation}

/-- A refused strategy has no evaluation. -/
theorem evaluation_of_refused {e : Error} (h : validateStrategy limits s = .error e)
    (history : List Event) : evaluation limits history s now = .error e := by
  rw [evaluation, h]
  rfl

/-- The evaluation of a strategy in order is a call of the worker that looks for the rule. -/
theorem evaluation_of_valid (h : validateStrategy limits s = .ok ()) (history : List Event) :
    evaluation limits history s now =
      .ok (Call.after limits (watching (Call.deadline limits) (s.watched now)) history) := by
  rw [evaluation, h]
  rfl

/-- What the caller gets of a strategy in order. -/
theorem evaluateStrategy_of_valid (h : validateStrategy limits s = .ok ()) (pace : Pace) :
    evaluateStrategy limits pace s now =
      (Call.after limits (watching (Call.deadline limits) (s.watched now))
        (pace.events (s.watched now).looks)).outcome limits := by
  rw [evaluateStrategy, evaluation_of_valid h]
  rfl

/-- **Evaluation in the sandbox refines plain evaluation.** Either the strategy is refused, for
another reason than time, and then there is no evaluation in any history; or in every history all
that the worker sends and the caller gets is the rule that fires plainly, or the notice that the
configured time is over, which comes only when it is; and if the worker gets its moves in time it is
the former. -/
theorem evaluateStrategy_refines (limits : Limits) (pace : Pace) (s : Strategy) (now : Situation) :
    (∃ e, validateStrategy limits s = .error e ∧ (∀ ms, e ≠ .executionTimeout ms) ∧
      (∀ history, evaluation limits history s now = .error e) ∧
      evaluateStrategy limits pace s now = .error e) ∨
    (validateStrategy limits s = .ok () ∧
      (∀ history, ∃ call, evaluation limits history s now = .ok call ∧
        ∀ result, call.message = some result ∨ call.answer = some result →
          result = .ok (s.firing? now) ∨
            limits.timeoutMs ≤ ticks history ∧
              result = .error (.executionTimeout limits.timeoutMs)) ∧
      (evaluateStrategy limits pace s now = .ok (s.firing? now) ∨
        evaluateStrategy limits pace s now = .error (.executionTimeout limits.timeoutMs)) ∧
      ∀ early late, ticks early < limits.timeoutMs → (s.watched now).looks < moves early →
        evaluateStrategy limits (.history (early ++ late)) s now = .ok (s.firing? now)) := by
  cases hvalid : validateStrategy limits s with
  | error e =>
    left
    refine ⟨e, rfl, ?_, evaluation_of_refused hvalid, ?_⟩
    · rintro ms rfl
      exact validateStrategy_ne_timeout ms hvalid
    · rw [evaluateStrategy, evaluation_of_refused hvalid]
      rfl
  | ok _ =>
    right
    have hkeeps (history : List Event) :
        Call.KeepsTo limits (s.watched now) history
          (Call.after limits (watching (Call.deadline limits) (s.watched now)) history) :=
      Call.keepsTo_after (s.watched now) history
    have hvalue := s.value_watched now
    refine ⟨rfl, ?_, ?_, ?_⟩
    · intro history
      refine ⟨_, evaluation_of_valid hvalid history, ?_⟩
      rintro result (hmessage | hanswer)
      · exact hvalue ▸ (hkeeps history).message result hmessage
      · exact hvalue ▸ (hkeeps history).answer result hanswer
    · rw [evaluateStrategy_of_valid hvalid, ← hvalue]
      exact (hkeeps _).outcome
    · intro early late hticks hmoves
      have hsettled := (hkeeps early).isSettled hticks hmoves
      rw [evaluateStrategy_of_valid hvalid, ← hvalue]
      exact (hsettled.after_append late).outcome

end TradingRules.Sandbox
