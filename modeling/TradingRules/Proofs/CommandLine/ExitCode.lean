/-
# Exit codes

A command ends with the exit code of what goes wrong first. An evaluation goes through five stages,
each with a code of its own; the validation of the same strategy for the sandbox goes through most of
them in another order, and ends without a look at the market. So the two agree as long as the market
is there and time is not over, except on which of two faults is met first.
-/
import TradingRules.CommandLine.Run
import TradingRules.Proofs.Except
import TradingRules.Proofs.Sandbox.Evaluation

namespace TradingRules

open Sandbox (Limits Pace)

/-! ## The sandbox -/

/-- An evaluation adds no error to those of the validation but that time is over. -/
theorem Sandbox.evaluateStrategy_cases (limits : Limits) (pace : Pace) (s : Strategy)
    (now : Situation) :
    (∃ e, validateStrategy limits s = .error e ∧ evaluateStrategy limits pace s now = .error e) ∨
    (validateStrategy limits s = .ok () ∧
      ((∃ found, evaluateStrategy limits pace s now = .ok found) ∨
        evaluateStrategy limits pace s now = .error (.executionTimeout limits.timeoutMs))) := by
  cases hvalid : validateStrategy limits s with
  | error e =>
    left
    refine ⟨e, rfl, ?_⟩
    rw [evaluateStrategy, evaluation_of_refused hvalid]
    rfl
  | ok _ =>
    right
    refine ⟨rfl, ?_⟩
    rw [evaluateStrategy_of_valid hvalid]
    rcases (Call.keepsTo_after (s.watched now) _).outcome with hdone | hover
    · exact Or.inl ⟨_, hdone⟩
    · exact Or.inr hover

/-! ## The code of a result -/

/-- No failure is reported as a success. -/
theorem Failure.exitCode_ne_zero (e : Failure) : e.exitCode ≠ 0 := by
  cases e <;> exact Nat.succ_ne_zero _

/-- The exit code that a result ends with. -/
def Failure.codeOf {α : Type} : Except Failure α → Nat
  | .ok _ => 0
  | .error e => e.exitCode

namespace CommandLine

open Failure (codeOf)

section

variable {α β : Type}

/-- Only what succeeds ends with zero. -/
theorem codeOf_eq_zero_iff {r : Except Failure α} : codeOf r = 0 ↔ ∃ a, r = .ok a := by
  cases r with
  | ok a => exact iff_of_true rfl ⟨a, rfl⟩
  | error e =>
    refine iff_of_false e.exitCode_ne_zero ?_
    rintro ⟨a, h⟩
    cases h

/-- What is made of a result at last does not change the code. -/
theorem codeOf_bind_pure (r : Except Failure α) (f : α → β) :
    codeOf (r >>= fun a => pure (f a)) = codeOf r := by
  cases r <;> rfl

theorem exitCode_ofResult (r : Except Failure String) : (Outcome.ofResult r).exitCode = codeOf r := by
  cases r <;> rfl

/-- Whatever goes wrong is reported with one exit code. -/
def FailsWith (code : Nat) (r : Except Failure α) : Prop :=
  ∀ e, r = .error e → e.exitCode = code

theorem failsWith_mapError {ε : Type} {f : ε → Failure} {code : Nat}
    (h : ∀ e, (f e).exitCode = code) (r : Except ε α) : FailsWith code (r.mapError f) := by
  intro e he
  cases r with
  | ok a => cases he
  | error fault =>
    have hfault : f fault = e := Except.error.inj he
    rw [← hfault]
    exact h fault

theorem FailsWith.bind {code : Nat} {r : Except Failure α} {next : α → Except Failure β}
    (h : FailsWith code r) (hnext : ∀ a, FailsWith code (next a)) :
    FailsWith code (r >>= next) := by
  intro e he
  cases r with
  | ok a => exact hnext a e he
  | error fault =>
    cases he
    exact h e rfl

end

/-! ## The stages of an evaluation -/

/-- What may fail in an evaluation. -/
inductive Stage where
  /-- Loading the limits. -/
  | settings
  /-- Reading the file of the strategy. -/
  | reading
  /-- Parsing the strategy. -/
  | parsing
  | market
  | sandbox
deriving DecidableEq, Repr

namespace Stage

/-- The exit code when a stage fails. -/
def code : Stage → Nat
  | .settings => 2
  | .reading => 1
  | .parsing => 4
  | .market => 3
  | .sandbox => 5

/-- The stages in the order in which an evaluation goes through them. -/
def order : List Stage := [.settings, .reading, .parsing, .market, .sandbox]

end Stage

/-- An evaluation that is asked for: the files as they are, the pace at which it goes, and the
arguments. -/
structure Job where
  files : FileSystem
  pace : Pace
  strategy : String
  data : String
  symbol : String
  signal : String
  config : Option String

namespace Job

variable (j : Job)

/-- How the evaluation ends as a command. -/
def evaluated : Outcome :=
  (Command.evaluate j.strategy j.data j.symbol j.signal j.config).run j.files j.pace

/-- How the validation of the same strategy for the sandbox ends, with the same settings. -/
def validated : Outcome :=
  (Command.validate j.strategy true j.config).run j.files j.pace

/-- What the evaluation gives. -/
def result : Except Failure (Strategy × Option Firing) :=
  evaluateFiles j.files j.pace j.strategy j.data j.symbol j.signal j.config

/-- Whether a stage of the evaluation fails. The stages that build on others do not fail without
them. -/
def fails : Stage → Bool
  | .settings => !(Limits.load j.files j.config).isOk
  | .reading => !(j.files.read j.strategy).isOk
  | .parsing =>
    match j.files.read j.strategy with
    | .ok text => !(Strategy.parse text).isOk
    | .error _ => false
  | .market => !(Market.load j.files j.data j.symbol).isOk
  | .sandbox =>
    match Limits.load j.files j.config, Strategy.load j.files j.strategy,
      Market.load j.files j.data j.symbol with
    | .ok limits, .ok s, .ok m =>
      !(Sandbox.evaluateStrategy limits j.pace s ⟨⟨j.signal⟩, m⟩).isOk
    | _, _, _ => false

/-- The first stage of the evaluation that fails. -/
def firstFault? : Option Stage :=
  Stage.order.find? j.fails

end Job

/-! ## The codes of what is loaded -/

/-- Limits that cannot be loaded are reported as a fault of the settings. -/
theorem failsWith_loadLimits (files : FileSystem) (config : Option String) :
    FailsWith 2 (Limits.load files config) := by
  cases config with
  | none =>
    intro e he
    cases he
  | some path =>
    have hfile : ∀ fault, (Failure.settingsFile path fault).exitCode = 2 := fun _ => rfl
    have hlimit : ∀ fault, (Failure.invalidLimit fault).exitCode = 2 := fun _ => rfl
    have hload : FailsWith 2 (Settings.load files path) := by
      apply FailsWith.bind (failsWith_mapError (fun fault => hfile _) _)
      exact fun _ => failsWith_mapError (fun fault => hfile _) _
    exact hload.bind fun _ => failsWith_mapError hlimit _

/-- A market that cannot be loaded is reported as such. -/
theorem failsWith_loadMarket (files : FileSystem) (data symbol : String) :
    FailsWith 3 (Market.load files data symbol) := by
  have hmarket : ∀ fault, (Failure.market fault).exitCode = 3 := fun _ => rfl
  exact failsWith_mapError hmarket _

/-- A strategy in a file that cannot be read. -/
theorem loadStrategy_of_error {files : FileSystem} {file : String} {e : FileError}
    (h : files.read file = .error e) : Strategy.load files file = .error (.file e) := by
  rw [Strategy.load, h]
  rfl

/-- A strategy in a file that can be read is parsed. -/
theorem loadStrategy_of_ok {files : FileSystem} {file text : String}
    (h : files.read file = .ok text) :
    Strategy.load files file = (Strategy.parse text).mapError .malformedStrategy := by
  rw [Strategy.load, h]
  rfl

/-- A strategy is loaded in two stages. -/
theorem Job.loadStrategy_cases (j : Job) :
    (j.fails .reading = true ∧ j.fails .parsing = false ∧
      ∃ e, Strategy.load j.files j.strategy = .error e ∧ e.exitCode = 1) ∨
    (j.fails .reading = false ∧ j.fails .parsing = true ∧
      ∃ e, Strategy.load j.files j.strategy = .error e ∧ e.exitCode = 4) ∨
    (j.fails .reading = false ∧ j.fails .parsing = false ∧
      ∃ s, Strategy.load j.files j.strategy = .ok s) := by
  unfold fails
  cases hread : j.files.read j.strategy with
  | error e => exact Or.inl ⟨rfl, rfl, .file e, loadStrategy_of_error hread, rfl⟩
  | ok text =>
    rw [loadStrategy_of_ok hread]
    simp only
    cases Strategy.parse text with
    | error e => exact Or.inr (Or.inl ⟨rfl, rfl, .malformedStrategy e, rfl, rfl⟩)
    | ok s => exact Or.inr (Or.inr ⟨rfl, rfl, s, rfl⟩)

/-! ## The codes of the commands -/

theorem exitCode_parse (files : FileSystem) (pace : Pace) (file : String) :
    ((Command.parse file).run files pace).exitCode = codeOf (Strategy.load files file) := by
  show (Outcome.ofResult (parseFile files file)).exitCode = _
  rw [exitCode_ofResult]
  exact codeOf_bind_pure _ _

/-- A validation ends with the code of loading the strategy and, if wanted, checking it in the
sandbox. -/
theorem exitCode_validate (files : FileSystem) (pace : Pace) (file : String) (sandbox : Bool)
    (config : Option String) :
    ((Command.validate file sandbox config).run files pace).exitCode =
      codeOf (do
        let s ← Strategy.load files file
        if sandbox then checkSandbox files config s) := by
  show (validateFile files file sandbox config).exitCode = _
  unfold validateFile
  cases hread : files.read file with
  | error e =>
    rw [loadStrategy_of_error hread]
    rfl
  | ok text =>
    rw [loadStrategy_of_ok hread]
    simp only
    cases Strategy.parse text with
    | error e => rfl
    | ok s =>
      simp only
      rw [exitCode_ofResult]
      cases sandbox with
      | false => rfl
      | true => exact codeOf_bind_pure (checkSandbox files config s) _

theorem Job.exitCode_evaluated (j : Job) : j.evaluated.exitCode = codeOf j.result := by
  show (Outcome.ofResult (j.result >>= fun _ => pure _)).exitCode = _
  rw [exitCode_ofResult]
  exact codeOf_bind_pure _ _

/-! ## The stages decide -/

namespace Job

variable {j : Job} {limits : Limits} {s : Strategy} {m : Market}

/-- With everything loaded the sandbox decides. -/
theorem result_of_loaded (hlimits : Limits.load j.files j.config = .ok limits)
    (hstrategy : Strategy.load j.files j.strategy = .ok s)
    (hmarket : Market.load j.files j.data j.symbol = .ok m) :
    j.result = ((Sandbox.evaluateStrategy limits j.pace s ⟨⟨j.signal⟩, m⟩).mapError .sandbox >>=
      fun found => pure (s, found)) := by
  rw [result, evaluateFiles, hlimits, hstrategy, hmarket]
  rfl

/-- With everything loaded the sandbox is the only stage left to fail. -/
theorem fails_sandbox_of_loaded (hlimits : Limits.load j.files j.config = .ok limits)
    (hstrategy : Strategy.load j.files j.strategy = .ok s)
    (hmarket : Market.load j.files j.data j.symbol = .ok m) :
    j.fails .sandbox = !(Sandbox.evaluateStrategy limits j.pace s ⟨⟨j.signal⟩, m⟩).isOk := by
  simp only [fails, hlimits, hstrategy, hmarket]

/-- **An evaluation ends with the code of the first stage that fails**, and with zero if none does. -/
theorem codeOf_result (j : Job) : codeOf j.result = (j.firstFault?.map Stage.code).getD 0 := by
  unfold firstFault? Stage.order
  -- stage after stage, as far as everything before it could be loaded
  cases hlimits : Limits.load j.files j.config with
  | error e =>
    have hsettings : j.fails .settings = true := by rw [fails, hlimits]; rfl
    simp only [List.find?_cons, hsettings]
    rw [result, evaluateFiles, hlimits]
    exact failsWith_loadLimits _ _ e hlimits
  | ok limits =>
    have hsettings : j.fails .settings = false := by rw [fails, hlimits]; rfl
    rcases j.loadStrategy_cases with ⟨hreading, -, e, hstrategy, hcode⟩ |
        ⟨hreading, hparsing, e, hstrategy, hcode⟩ | ⟨hreading, hparsing, s, hstrategy⟩
    · simp only [List.find?_cons, hsettings, hreading]
      rw [result, evaluateFiles, hlimits, hstrategy]
      exact hcode
    · simp only [List.find?_cons, hsettings, hreading, hparsing]
      rw [result, evaluateFiles, hlimits, hstrategy]
      exact hcode
    · cases hload : Market.load j.files j.data j.symbol with
      | error e =>
        have hmarket : j.fails .market = true := by rw [fails, hload]; rfl
        simp only [List.find?_cons, hsettings, hreading, hparsing, hmarket]
        rw [result, evaluateFiles, hlimits, hstrategy, hload]
        exact failsWith_loadMarket _ _ _ e hload
      | ok m =>
        have hmarket : j.fails .market = false := by rw [fails, hload]; rfl
        simp only [List.find?_cons, List.find?_nil, hsettings, hreading, hparsing, hmarket,
          fails_sandbox_of_loaded hlimits hstrategy hload]
        rw [result_of_loaded hlimits hstrategy hload, codeOf_bind_pure]
        cases Sandbox.evaluateStrategy limits j.pace s ⟨⟨j.signal⟩, m⟩ <;> rfl

/-! ## Evaluation and validation -/

/-- A validation for the sandbox ends with the code of the check. -/
theorem exitCode_validated_of_loaded (hstrategy : Strategy.load j.files j.strategy = .ok s) :
    j.validated.exitCode = codeOf (checkSandbox j.files j.config s) := by
  rw [validated, exitCode_validate, hstrategy]
  rfl

/-- A strategy that cannot be loaded is not validated. -/
theorem exitCode_validated_of_error {e : Failure}
    (hstrategy : Strategy.load j.files j.strategy = .error e) :
    j.validated.exitCode = e.exitCode := by
  rw [validated, exitCode_validate, hstrategy]
  rfl

/-- What is evaluated has been loaded and validated. -/
theorem exitCode_validated_of_evaluated (h : j.evaluated.exitCode = 0) :
    j.validated.exitCode = 0 := by
  rw [exitCode_evaluated, codeOf_eq_zero_iff] at h
  obtain ⟨p, hresult⟩ := h
  obtain ⟨limits, hlimits, hresult⟩ := bind_eq_ok_iff.mp hresult
  obtain ⟨s, hstrategy, hresult⟩ := bind_eq_ok_iff.mp hresult
  obtain ⟨m, -, hresult⟩ := bind_eq_ok_iff.mp hresult
  obtain ⟨found, hfound, -⟩ := bind_eq_ok_iff.mp hresult
  rw [exitCode_validated_of_loaded hstrategy, checkSandbox, hlimits]
  rcases Sandbox.evaluateStrategy_cases limits j.pace s ⟨⟨j.signal⟩, m⟩ with
    ⟨e, -, hrefused⟩ | ⟨hvalid, -⟩
  · rw [hrefused] at hfound
    cases hfound
  · show codeOf ((Sandbox.validateStrategy limits s).mapError Failure.sandbox) = 0
    rw [hvalid]
    rfl

/-- With bad settings an evaluation looks at nothing else, while a validation looks at the strategy
first. -/
theorem exitCodes_of_both_bad (hsettings : j.fails .settings = true) :
    (j.fails .reading = true → j.evaluated.exitCode = 2 ∧ j.validated.exitCode = 1) ∧
      (j.fails .parsing = true → j.evaluated.exitCode = 2 ∧ j.validated.exitCode = 4) := by
  have hevaluated : j.evaluated.exitCode = 2 := by
    rw [exitCode_evaluated, codeOf_result, firstFault?, Stage.order,
      List.find?_cons_of_pos hsettings]
    rfl
  rcases j.loadStrategy_cases with ⟨hreading, hparsing, e, hstrategy, hcode⟩ |
      ⟨hreading, hparsing, e, hstrategy, hcode⟩ | ⟨hreading, hparsing, -⟩
  · rw [hreading, hparsing, exitCode_validated_of_error hstrategy]
    exact ⟨fun _ => ⟨hevaluated, hcode⟩, fun h => absurd h Bool.false_ne_true⟩
  · rw [hreading, hparsing, exitCode_validated_of_error hstrategy]
    exact ⟨fun h => absurd h Bool.false_ne_true, fun _ => ⟨hevaluated, hcode⟩⟩
  · rw [hreading, hparsing]
    exact ⟨fun h => absurd h Bool.false_ne_true, fun h => absurd h Bool.false_ne_true⟩

/-- With a market and in time, and unless both the settings and the strategy are bad, an evaluation
and a validation for the sandbox end with one code. -/
theorem exitCode_evaluated_eq_validated (hmarket : Market.load j.files j.data j.symbol = .ok m)
    (htime : ∀ ms, j.result ≠ .error (.sandbox (.executionTimeout ms)))
    (hgood : ¬ (j.fails .settings = true ∧ (j.fails .reading = true ∨ j.fails .parsing = true))) :
    j.evaluated.exitCode = j.validated.exitCode := by
  rw [exitCode_evaluated]
  cases hlimits : Limits.load j.files j.config with
  | error e =>
    have hsettings : j.fails .settings = true := by rw [fails, hlimits]; rfl
    rcases j.loadStrategy_cases with ⟨hreading, -⟩ | ⟨-, hparsing, -⟩ | ⟨-, -, s, hstrategy⟩
    · exact absurd ⟨hsettings, Or.inl hreading⟩ hgood
    · exact absurd ⟨hsettings, Or.inr hparsing⟩ hgood
    · -- with a good strategy the validation comes to the settings too
      rw [exitCode_validated_of_loaded hstrategy, checkSandbox, result, evaluateFiles, hlimits]
      rfl
  | ok limits =>
    cases hstrategy : Strategy.load j.files j.strategy with
    | error e =>
      rw [exitCode_validated_of_error hstrategy, result, evaluateFiles, hlimits, hstrategy]
      rfl
    | ok s =>
      rw [exitCode_validated_of_loaded hstrategy, checkSandbox, hlimits]
      rw [result_of_loaded hlimits hstrategy hmarket] at htime ⊢
      show _ = codeOf ((Sandbox.validateStrategy limits s).mapError Failure.sandbox)
      rcases Sandbox.evaluateStrategy_cases limits j.pace s ⟨⟨j.signal⟩, m⟩ with
        ⟨e, hrefused, hevaluation⟩ | ⟨hvalid, ⟨found, hevaluation⟩ | hover⟩
      · rw [hrefused, hevaluation]
        rfl
      · rw [hvalid, hevaluation]
        rfl
      · rw [hover] at htime
        exact absurd rfl (htime limits.timeoutMs)

end Job

/-- **The three commands agree.** Parsing and plain validation end with one code. What is evaluated is
also valid for the sandbox. With a market and in time, evaluation and validation for the sandbox succeed
together, and fail with one code unless both the settings and the strategy are bad; then each reports
what it looks at first. An evaluation ends with the code of the first stage that fails, and with zero if
none does, whether or not a rule fires. -/
theorem exitCodes_agree (j : Job) :
    (∀ config, ((Command.parse j.strategy).run j.files j.pace).exitCode =
      ((Command.validate j.strategy false config).run j.files j.pace).exitCode) ∧
    (j.evaluated.exitCode = 0 → j.validated.exitCode = 0) ∧
    ((∃ m, Market.load j.files j.data j.symbol = .ok m) →
      (∀ ms, j.result ≠ .error (.sandbox (.executionTimeout ms))) →
      (j.evaluated.exitCode = 0 ↔ j.validated.exitCode = 0) ∧
        (¬ (j.fails .settings = true ∧ (j.fails .reading = true ∨ j.fails .parsing = true)) →
          j.evaluated.exitCode = j.validated.exitCode)) ∧
    (j.fails .settings = true →
      (j.fails .reading = true → j.evaluated.exitCode = 2 ∧ j.validated.exitCode = 1) ∧
        (j.fails .parsing = true → j.evaluated.exitCode = 2 ∧ j.validated.exitCode = 4)) ∧
    j.evaluated.exitCode = (j.firstFault?.map Stage.code).getD 0 ∧
    ∀ s found, j.result = .ok (s, found) → j.evaluated.exitCode = 0 := by
  refine ⟨?_, Job.exitCode_validated_of_evaluated, ?_, Job.exitCodes_of_both_bad, ?_, ?_⟩
  · intro config
    rw [exitCode_parse, exitCode_validate]
    exact (codeOf_bind_pure _ _).symm
  · rintro ⟨m, hmarket⟩ htime
    have hsame := Job.exitCode_evaluated_eq_validated hmarket htime
    refine ⟨?_, hsame⟩
    by_cases hbad : j.fails .settings = true ∧ (j.fails .reading = true ∨ j.fails .parsing = true)
    · -- both end with a code, though not with the same one
      obtain ⟨hsettings, hreading | hparsing⟩ := hbad
      · obtain ⟨hevaluated, hvalidated⟩ := (Job.exitCodes_of_both_bad hsettings).1 hreading
        omega
      · obtain ⟨hevaluated, hvalidated⟩ := (Job.exitCodes_of_both_bad hsettings).2 hparsing
        omega
    · rw [hsame hbad]
  · rw [j.exitCode_evaluated, j.codeOf_result]
  · intro s found hresult
    rw [j.exitCode_evaluated, hresult]
    rfl

/-- A strategy, a text that is none, and a price at which no rule fires. -/
def sampleFiles : FileSystem :=
  .ofFindings
    [("good.strat", .ok "strategy(\"x\") \x7b if price > 11.5 \x7b sell() \x7d \x7d"),
      ("bad.strat", .ok "no strategy"),
      ("data/SOL.csv", .ok "date,price,volume\n2024-01-01,10.0,1000\n")]
    [("data", .ok ["SOL.csv"])]

/-- The evaluation of one of the strategies. -/
def sampleJob (strategy : String) (config : Option String) : Job :=
  ⟨sampleFiles, .prompt, strategy, "data", "SOL", "", config⟩

/-- No rule fires, and both commands succeed; with a bad strategy and without the settings that are
asked for they fail with codes of their own. -/
theorem exitCodes_of_samples :
    ((∃ s, (sampleJob "good.strat" none).result = .ok (s, none)) ∧
        (sampleJob "good.strat" none).evaluated.exitCode = 0 ∧
        (sampleJob "good.strat" none).validated.exitCode = 0) ∧
      (sampleJob "bad.strat" (some "none.ini")).evaluated.exitCode = 2 ∧
      (sampleJob "bad.strat" (some "none.ini")).validated.exitCode = 4 := by
  obtain ⟨-, hzero, -, -, -, hdone⟩ := exitCodes_agree (sampleJob "good.strat" none)
  obtain ⟨-, -, -, hbad, -, -⟩ := exitCodes_agree (sampleJob "bad.strat" (some "none.ini"))
  have hquiet : (sampleJob "good.strat" none).result.map (·.2) = .ok none := by decide +kernel
  obtain ⟨s, hresult⟩ : ∃ s, (sampleJob "good.strat" none).result = .ok (s, none) := by
    cases hresult : (sampleJob "good.strat" none).result with
    | error e =>
      rw [hresult] at hquiet
      cases hquiet
    | ok found =>
      rw [hresult] at hquiet
      exact ⟨found.1, congrArg Except.ok (Prod.ext rfl (Except.ok.inj hquiet))⟩
  have hevaluated := hdone s none hresult
  exact ⟨⟨⟨s, hresult⟩, hevaluated, hzero hevaluated⟩,
    (hbad (by decide +kernel)).2 (by decide +kernel)⟩

end CommandLine

end TradingRules
