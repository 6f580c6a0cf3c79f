/-
# Evaluation in the sandbox

A tree or a strategy is validated, and only then worked on, under the time limit.
-/
import TradingRules.Evaluation.Watched
import TradingRules.Sandbox.Execution
import TradingRules.Sandbox.Validation

namespace TradingRules.Sandbox

/-- Validates a tree and then lets a worker do its work. -/
def execute {σ α : Type} (limits : Limits) (history : List Event) (root : Json) (w : Worker σ α) :
    Except Error α := do
  validate limits root
  runTimed limits history w

/-- The worker that goes through a computation and gives up when its deadline is over. -/
def watching {α : Type} (d : Deadline) (computation : Watched α) :
    Worker (Option (Watched α)) α where
  start := some computation
  move
    | none => .finish (.error d.timeout)
    | some (.done value) => .finish (.ok value)
    | some (.look next) => .look fun isOver => if isOver then none else some next

/-- The worker that looks for the rule that fires. -/
def evaluator (limits : Limits) (s : Strategy) (now : Situation) :
    Worker (Option (Watched (Option Firing))) (Option Firing) :=
  watching (Call.deadline limits) (s.watched now)

/-- How a timed evaluation goes. -/
inductive Pace where
  /-- The worker gets through before any time has passed. -/
  | prompt
  /-- Worker and caller act as told. -/
  | history (events : List Event)
deriving DecidableEq, Repr

/-- The history of an evaluation that looks at its deadline so many times. -/
def Pace.events (looks : Nat) : Pace → List Event
  | .prompt => Sandbox.prompt (looks + 1)
  | .history events => events

/-- The call in which a strategy is evaluated, as it stands after a history. The strategy is validated
first; when it is refused there is no call, and no rule is looked at. -/
def evaluation (limits : Limits) (history : List Event) (s : Strategy) (now : Situation) :
    Except Error (Call (Option (Watched (Option Firing))) (Option Firing)) := do
  validateStrategy limits s
  return Call.after limits (evaluator limits s now) history

/-- Validates a strategy and then looks for the rule that fires. -/
def evaluateStrategy (limits : Limits) (pace : Pace) (s : Strategy) (now : Situation) :
    Except Error (Option Firing) := do
  let call ← evaluation limits (pace.events (s.watched now).looks) s now
  call.outcome limits

end TradingRules.Sandbox
