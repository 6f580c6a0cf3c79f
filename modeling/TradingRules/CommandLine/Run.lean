/-
# Carrying out commands

A command reads files and ends with an exit code, which is zero unless it fails, and with what it
prints. An evaluation loads the limits, the strategy and the market in this order.
-/
import TradingRules.CommandLine.Command
import TradingRules.Failure
import TradingRules.Files.Basic
import TradingRules.Market.Feed
import TradingRules.Sandbox.Evaluation
import TradingRules.Strategy.Parser

namespace TradingRules

open Sandbox (Limits)

/-! ## Loading -/

/-- Loads a strategy. -/
def Strategy.load (files : FileSystem) (path : String) : Except Failure Strategy := do
  let text ← (files.read path).mapError .file
  (Strategy.parse text).mapError .malformedStrategy

/-- Loads settings. -/
def Settings.load (files : FileSystem) (path : String) : Except Failure Settings := do
  let text ← (files.read path).mapError fun e => .settingsFile path (.unreadable e)
  (Settings.parse text).mapError fun e => .settingsFile path (.malformed e)

/-- Loads the limits; without a settings file they are the default ones. -/
def Sandbox.Limits.load (files : FileSystem) : Option String → Except Failure Limits
  | none => .ok {}
  | some path => do
    let settings ← Settings.load files path
    settings.limits.mapError .invalidLimit

/-- Loads a market. -/
def Market.load (files : FileSystem) (directory symbol : String) : Except Failure Market :=
  ((Feed.ofDirectory files directory).fetch symbol).mapError .market

namespace CommandLine

open Sandbox (Pace)

/-- Evaluates a strategy for the latest market of a symbol, as far as files tell: gives the strategy
and the rule that fires. -/
def evaluateFiles (files : FileSystem) (pace : Pace) (strategyPath data symbol signal : String)
    (config : Option String) : Except Failure (Strategy × Option Firing) := do
  let limits ← Limits.load files config
  let strategy ← Strategy.load files strategyPath
  let market ← Market.load files data symbol
  let found ← (Sandbox.evaluateStrategy limits pace strategy ⟨⟨signal⟩, market⟩).mapError .sandbox
  return (strategy, found)

/-! ## Commands -/

/-- How a command ends. -/
structure Outcome where
  exitCode : Nat
  output : String := ""
  complaints : String := ""
deriving DecidableEq, Repr

/-- A line of text. -/
def line (text : String) : String := text ++ "\n"

/-- The end of a command that succeeds. -/
def Outcome.success (text : String) : Outcome where
  exitCode := 0
  output := line text

/-- The end of a command that fails. -/
def Outcome.failure (e : Failure) : Outcome where
  exitCode := e.exitCode
  complaints := line ("error: " ++ e.message)

/-- The end of a command whose result is known. -/
def Outcome.ofResult : Except Failure String → Outcome
  | .ok text => .success text
  | .error e => .failure e

/-- Gives the canonical text of a strategy. -/
def parseFile (files : FileSystem) (path : String) : Except Failure String := do
  return (← Strategy.load files path).toText

/-- Tells what is wrong with a strategy in the sandbox. -/
def checkSandbox (files : FileSystem) (config : Option String) (s : Strategy) :
    Except Failure Unit := do
  let limits ← Limits.load files config
  (Sandbox.validateStrategy limits s).mapError .sandbox

/-- Tells whether a strategy is in order. -/
def validateFile (files : FileSystem) (path : String) (sandbox : Bool) (config : Option String) :
    Outcome :=
  match files.read path with
  | .error e => .failure (.file e)
  | .ok text =>
    match Strategy.parse text with
    | .error e =>
      let ending := Outcome.failure (.malformedStrategy e)
      { ending with complaints := line (path ++ ": invalid strategy") ++ ending.complaints }
    | .ok s =>
      .ofResult do
        if sandbox then checkSandbox files config s
        return "ok"

/-- The report on an evaluation, with its members in the order of their names. -/
def report (strategy : Strategy) (found : Option Firing) : Json :=
  let actions := match found with
    | some firing => firing.rule.actions
    | none => []
  (Json.object [
    ("strategy", .string strategy.name),
    ("fired", .bool found.isSome),
    ("actions", Action.listToJson actions)]).sorted

/-- Carries out a command. -/
def Command.run (files : FileSystem) (pace : Pace) : Command → Outcome
  | .parse file => .ofResult (parseFile files file)
  | .validate file sandbox config => validateFile files file sandbox config
  | .evaluate strategy data symbol signal config =>
    .ofResult do
      let (strategy, found) ← evaluateFiles files pace strategy data symbol signal config
      return (report strategy found).pretty

/-! ## What a command needs -/

/-- The files that a command may read. -/
def Command.files : Command → List String
  | .parse file => [file]
  | .validate file _ config => file :: config.toList
  | .evaluate strategy data symbol _ config =>
    strategy :: joinPath data (Feed.fileName symbol) :: config.toList

/-- The directories whose entries a command may list. -/
def Command.directories : Command → List String
  | .evaluate _ data _ _ _ => [data]
  | _ => []

/-- Reads and carries out a command line. -/
def run (files : FileSystem) (pace : Pace) (words : List String) : Except UsageError Outcome := do
  return (← Command.ofWords words).run files pace

end CommandLine

end TradingRules
