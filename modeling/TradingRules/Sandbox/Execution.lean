/-
# Timed execution

A call hands work to a worker and waits for the result, at most as long as the limits allow. Worker
and caller share a deadline, which the caller cancels when it stops waiting, and a channel that
carries one message. They act independently: a history of events says who acts when, and every
history is possible.
-/
import TradingRules.Sandbox.Deadline
import TradingRules.Sandbox.Limits

namespace TradingRules.Sandbox

/-! ## Workers -/

/-- What a worker does next. What it keeps in mind is of type `σ`. -/
inductive Move (σ α : Type) where
  /-- It learns whether its deadline is over. -/
  | look (next : Bool → σ)
  /-- It learns how many milliseconds have passed. -/
  | clock (next : Nat → σ)
  /-- It cancels its deadline. -/
  | cancel (next : σ)
  /-- It ends with a result. -/
  | finish (result : Except Error α)
  /-- It ends without a result. -/
  | crash

/-- Work to be done. -/
structure Worker (σ α : Type) where
  start : σ
  move : σ → Move σ α

/-! ## Calls -/

/-- The state of a call. -/
structure Call (σ α : Type) where
  /-- The milliseconds since the call began. -/
  elapsed : Nat := 0
  /-- Whether the deadline of the call has been cancelled. -/
  cancelled : Bool := false
  /-- What the worker keeps in mind, until it ends. -/
  worker : Option σ
  /-- The message of the worker that the caller has not taken yet. -/
  message : Option (Except Error α) := none
  /-- What the caller got. -/
  answer : Option (Except Error α) := none

/-- What can happen. -/
inductive Event where
  /-- A millisecond passes. -/
  | tick
  /-- The worker makes a move. -/
  | work
  /-- The caller looks whether there is a message or the time is over. -/
  | wake
deriving DecidableEq, Repr

/-- What a caller gets from a worker that ends without a result. -/
def lostWorker : Error :=
  .executionFailed "evaluation worker terminated without a result"

namespace Call

variable {σ α : Type}

/-- A call that begins. -/
def begin (w : Worker σ α) : Call σ α where
  worker := some w.start

/-- The deadline of a call. -/
def deadline (limits : Limits) : Deadline :=
  .after 0 limits.timeoutMs

/-- Whether the deadline of a call is over. -/
def isOver (limits : Limits) (c : Call σ α) : Bool :=
  (deadline limits).isOver c.elapsed c.cancelled

/-- The worker makes a move. A message that nobody waits for is lost. -/
def work (limits : Limits) (w : Worker σ α) (c : Call σ α) : Call σ α :=
  match c.worker with
  | none => c
  | some state =>
    match w.move state with
    | .look next => { c with worker := some (next (c.isOver limits)) }
    | .clock next => { c with worker := some (next c.elapsed) }
    | .cancel next => { c with worker := some next, cancelled := true }
    | .finish result =>
      { c with worker := none, message := if c.answer.isSome then none else some result }
    | .crash => { c with worker := none }

/-- The caller looks. It takes a message; without one it learns that the worker has gone, or else
stops waiting if the time is over, and cancels the deadline. -/
def wake (limits : Limits) (c : Call σ α) : Call σ α :=
  match c.answer with
  | some _ => c
  | none =>
    match c.message with
    | some result => { c with message := none, answer := some result }
    | none =>
      if c.worker.isNone then { c with answer := some (.error lostWorker) }
      else if limits.timeoutMs ≤ c.elapsed then
        { c with cancelled := true, answer := some (.error (deadline limits).timeout) }
      else c

/-- What an event does. -/
def step (limits : Limits) (w : Worker σ α) (c : Call σ α) : Event → Call σ α
  | .tick => { c with elapsed := c.elapsed + 1 }
  | .work => c.work limits w
  | .wake => c.wake limits

/-- The state of a call after a history. -/
def after (limits : Limits) (w : Worker σ α) (history : List Event) : Call σ α :=
  history.foldl (step limits w) (begin w)

/-- What the caller gets in the end: with the history all time is over, and the caller looks for a
last time. -/
def outcome (limits : Limits) (c : Call σ α) : Except Error α :=
  ({ c with elapsed := c.elapsed + limits.timeoutMs }.wake limits).answer.getD
    (.error (deadline limits).timeout)

end Call

/-- What comes of work in a given history. -/
def runTimed {σ α : Type} (limits : Limits) (history : List Event) (w : Worker σ α) :
    Except Error α :=
  (Call.after limits w history).outcome limits

/-! ## Histories -/

/-- The history of a worker who makes so many moves at once, while the caller waits. -/
def prompt (moves : Nat) : List Event :=
  .wake :: List.replicate moves .work ++ [.wake]

/-- The history of a worker who makes some moves in every millisecond. -/
def steady (ms moves : Nat) : List Event :=
  (List.replicate ms (prompt moves ++ [.tick])).flatten

end TradingRules.Sandbox
