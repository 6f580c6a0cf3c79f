/-
# Deadlines

A deadline is over from a certain moment on, or as soon as it is cancelled. Cancelling reaches all
clones. Time is counted in milliseconds.
-/
import TradingRules.Sandbox.Error

namespace TradingRules.Sandbox

/-- A time limit and the moment from which on it is reached, if there is one. -/
structure Deadline where
  timeoutMs : Nat
  expiresAt : Option Nat
deriving DecidableEq, Repr

namespace Deadline

/-- The deadline that is never reached. -/
def unbounded : Deadline := ⟨0, none⟩

/-- The deadline that is reached after some time. -/
def after (now timeoutMs : Nat) : Deadline := ⟨timeoutMs, some (now + timeoutMs)⟩

/-- Whether a deadline is reached. -/
def isReached (d : Deadline) (now : Nat) : Bool :=
  match d.expiresAt with
  | some moment => decide (moment ≤ now)
  | none => false

/-- Whether a deadline is over, being cancelled or reached. -/
def isOver (d : Deadline) (now : Nat) (cancelled : Bool) : Bool :=
  cancelled || d.isReached now

/-- What those are told who ran out of time. -/
def timeout (d : Deadline) : Error :=
  .executionTimeout d.timeoutMs

/-- Fails when a deadline is over. -/
def check (d : Deadline) (isOver : Bool) : Except Error Unit :=
  if isOver then .error d.timeout else .ok ()

end Deadline

/-! ## Families of deadlines -/

/-- A deadline in someone's hands. Clones are of one family. -/
structure Handle where
  deadline : Deadline
  family : Nat
deriving DecidableEq, Repr

/-- All handles that have been given out, the families that are cancelled, and the time. -/
structure Deadlines where
  handles : List Handle := []
  cancelled : List Nat := []
  now : Nat := 0
deriving DecidableEq, Repr

namespace Deadlines

/-- Gives out a handle of a new family. -/
def create (s : Deadlines) (d : Deadline) : Deadlines :=
  { s with handles := s.handles ++ [⟨d, s.handles.length⟩] }

/-- Gives out a deadline that is never reached. -/
def addUnbounded (s : Deadlines) : Deadlines :=
  s.create .unbounded

/-- Gives out a deadline that is reached after some time. -/
def addAfter (s : Deadlines) (timeoutMs : Nat) : Deadlines :=
  s.create (.after s.now timeoutMs)

/-- Gives out a clone of a handle. -/
def clone (s : Deadlines) (place : Nat) : Deadlines :=
  match s.handles[place]? with
  | some handle => { s with handles := s.handles ++ [handle] }
  | none => s

/-- Cancels a handle and with it its family. -/
def cancel (s : Deadlines) (place : Nat) : Deadlines :=
  match s.handles[place]? with
  | some handle => { s with cancelled := handle.family :: s.cancelled }
  | none => s

/-- Lets time pass. -/
def wait (s : Deadlines) (ms : Nat) : Deadlines :=
  { s with now := s.now + ms }

/-- Whether a handle is over. -/
def isExpired (s : Deadlines) (handle : Handle) : Bool :=
  handle.deadline.isOver s.now (decide (handle.family ∈ s.cancelled))

/-- Fails when a handle is over. -/
def check (s : Deadlines) (handle : Handle) : Except Error Unit :=
  handle.deadline.check (s.isExpired handle)

end Deadlines

end TradingRules.Sandbox
