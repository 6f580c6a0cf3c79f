/-
# Evaluation under a deadline

An evaluation that is watched looks at its deadline before every condition and every expression, and
goes on only while there is time.
-/
import TradingRules.Evaluation.Basic
import TradingRules.Sandbox.Deadline

namespace TradingRules

/-- A computation that looks at its deadline from time to time. -/
inductive Watched (α : Type) where
  | done (value : α)
  | look (next : Watched α)
deriving DecidableEq, Repr

namespace Watched

variable {α β : Type}

/-- Goes on with the value of a computation. -/
def bind : Watched α → (α → Watched β) → Watched β
  | .done value, next => next value
  | .look rest, next => .look (rest.bind next)

instance : Monad Watched where
  pure := .done
  bind := bind

/-- Looks once. -/
def checkpoint : Watched Unit :=
  .look (.done ())

/-- The value if there is always time. -/
def value : Watched α → α
  | .done v => v
  | .look next => next.value

/-- How often the computation looks if there is always time. -/
def looks : Watched α → Nat
  | .done _ => 0
  | .look next => next.looks + 1

/-- Runs a computation: gives its value, or nothing once a look finds the time over, and how many
looks there were. The looks are numbered, and some have been before. -/
def run (isOver : Nat → Bool) (before : Nat) : Watched α → Option α × Nat
  | .done v => (some v, before)
  | .look next => if isOver before then (none, before + 1) else next.run isOver (before + 1)

end Watched

open Watched (checkpoint)

/-- Evaluates an expression. -/
def Expression.watched (now : Situation) (e : Expression) : Watched Operand := do
  checkpoint
  return e.value now

/-- Evaluates a condition; the right side of a connective only if the left side leaves it open. -/
def Condition.watched (now : Situation) : Condition → Watched Bool
  | .join .and left right => do
    checkpoint
    if ← left.watched now then right.watched now else return false
  | .join .or left right => do
    checkpoint
    if ← left.watched now then return true else right.watched now
  | .compare left c right => do
    checkpoint
    let x ← left.watched now
    let y ← right.watched now
    return c.apply x y
  | .holds e => do
    checkpoint
    let x ← e.watched now
    return x.isTrue

/-- Looks for the first of some rules whose condition is true; they begin at the given place. -/
def watchedFirst (now : Situation) (place : Nat) : List Rule → Watched (Option Firing)
  | [] => return none
  | r :: rest => do
    if ← r.condition.watched now then return some ⟨place, r⟩
    else watchedFirst now (place + 1) rest

namespace Strategy

/-- Looks for the rule of a strategy that fires. -/
def watched (s : Strategy) (now : Situation) : Watched (Option Firing) :=
  watchedFirst now 0 s.rules

/-- The rule of a strategy that fires, provided that no look at the deadline finds it over. -/
def firingWithin (s : Strategy) (now : Situation) (d : Sandbox.Deadline) (isOver : Nat → Bool) :
    Except Sandbox.Error (Option Firing) :=
  match ((s.watched now).run isOver 0).1 with
  | some found => .ok found
  | none => .error d.timeout

/-- Whether a strategy fires, provided that no look at the deadline finds it over. -/
def firesWithin (s : Strategy) (now : Situation) (d : Sandbox.Deadline) (isOver : Nat → Bool) :
    Except Sandbox.Error Bool :=
  (s.firingWithin now d isOver).map Option.isSome

end Strategy

end TradingRules
