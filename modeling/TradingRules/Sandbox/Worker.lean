/-
# Simple workers

Work that does one thing and then ends, by which the behaviour of timed execution can be tried.
-/
import TradingRules.Sandbox.Execution

namespace TradingRules.Sandbox.Worker

variable {α : Type}

/-- Ends with a result at once. -/
def returning (result : Except Error α) : Worker Unit α where
  start := ()
  move _ := .finish result

/-- Ends at once without a result. -/
def crashing : Worker Unit α where
  start := ()
  move _ := .crash

/-- Looks at its deadline and ends with a value if there is time. -/
def checking (d : Deadline) (value : α) : Worker (Option Bool) α where
  start := none
  move
    | none => .look some
    | some isOver => .finish ((d.check isOver).map fun _ => value)

/-- Cancels its deadline, then looks at it and ends with a value if there is time. -/
def cancelling (d : Deadline) (value : α) : Worker (Bool × Option Bool) α where
  start := (false, none)
  move
    | (false, _) => .cancel (true, none)
    | (true, none) => .look fun isOver => (true, some isOver)
    | (true, some isOver) => .finish ((d.check isOver).map fun _ => value)

/-- Looks at its deadline until it is over. -/
def cooperating (d : Deadline) : Worker Bool α where
  start := false
  move
    | false => .look id
    | true => .finish (.error d.timeout)

/-- Lets some time pass without a look at its deadline, then ends with a value. -/
def sleeping (ms : Nat) (value : α) : Worker Bool α where
  start := false
  move
    | false => .clock fun elapsed => decide (ms ≤ elapsed)
    | true => .finish (.ok value)

end TradingRules.Sandbox.Worker
