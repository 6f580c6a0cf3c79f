/-
# Limits from settings

The section `sandbox` may set the limits, each to a positive number; what it does not set keeps its
default.
-/
import TradingRules.Sandbox.Limits
import TradingRules.Settings.Basic

namespace TradingRules.Settings

open Text (NaturalError)
open Sandbox (Limits)

/-- The section that sets the limits. -/
def limitsSection : String := "sandbox"

/-- What is wrong with a limit. -/
inductive LimitFault where
  | unreadable (e : NaturalError)
  | notPositive
deriving DecidableEq, Repr

/-- A limit that cannot be used. -/
structure InvalidLimit where
  key : String
  fault : LimitFault
deriving DecidableEq, Repr

/-- The wording of the complaint. -/
def InvalidLimit.reason (e : InvalidLimit) : String :=
  match e.fault with
  | .unreadable e => e.message
  | .notPositive => e.key ++ " must be positive"

/-- Where settings come from: gives the number that a key of a section is set to. -/
abbrev Source := String → String → Except NaturalError (Option Nat)

/-- Reads a limit. -/
def readLimit (source : Source) (key : String) (default : Nat) : Except InvalidLimit Nat :=
  match source limitsSection key with
  | .error e => .error ⟨key, .unreadable e⟩
  | .ok (some 0) => .error ⟨key, .notPositive⟩
  | .ok (some n) => .ok n
  | .ok none => .ok default

/-- Reads the limits. -/
def readLimits (source : Source) : Except InvalidLimit Limits := do
  let default : Limits := {}
  let maxDepth ← readLimit source "max_depth" default.maxDepth
  let timeoutMs ← readLimit source "timeout_ms" default.timeoutMs
  return ⟨maxDepth, timeoutMs⟩

/-- The limits that settings give. -/
def limits (s : Settings) : Except InvalidLimit Limits :=
  readLimits s.natural?

end TradingRules.Settings
