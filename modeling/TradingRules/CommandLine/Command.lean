/-
# Commands

    parse FILE
    validate FILE [--sandbox] [--config FILE]
    eval --strategy FILE --data DIRECTORY --symbol SYMBOL [--signal TEXT] [--config FILE]

The command `help` tells about all commands or about one.
-/
import TradingRules.CommandLine.Argument

namespace TradingRules.CommandLine

/-- What is to be done. -/
inductive Command where
  /-- Prints the canonical text of a strategy. -/
  | parse (file : String)
  /-- Tells whether a strategy is in order, if wanted also for the sandbox. -/
  | validate (file : String) (sandbox : Bool) (config : Option String)
  /-- Tells which rule of a strategy fires. -/
  | evaluate (strategy data symbol signal : String) (config : Option String)
deriving DecidableEq, Repr

/-- The kinds of commands. -/
inductive Command.Kind where
  | parse
  | validate
  | evaluate
deriving DecidableEq, Repr

namespace Command

/-- The word for a kind of command. -/
def Kind.word : Kind → String
  | .parse => "parse"
  | .validate => "validate"
  | .evaluate => "eval"

/-- The kind of command with a given word. -/
def Kind.ofWord? (word : String) : Option Kind :=
  [Kind.parse, .validate, .evaluate].find? (·.word = word)

/-- The operand of a command that reads one file. -/
def fileOperand : Argument where
  name := "file"
  kind := .path
  required := true

/-- The option that names a settings file. -/
def configOption : Argument where
  name := "config"
  letter := some 'c'
  kind := .path

/-- The arguments of a kind of command. -/
def Kind.signature : Kind → Signature
  | .parse => { options := [], operand := some fileOperand }
  | .validate => {
      options := [{ name := "sandbox", kind := .nothing }, configOption]
      operand := some fileOperand }
  | .evaluate => {
      options := [
        { name := "strategy", letter := some 's', kind := .path, required := true },
        { name := "data", letter := some 'd', kind := .path, required := true },
        { name := "symbol", kind := .text, required := true },
        { name := "signal", kind := .text },
        configOption] }

/-- The command of a kind with the given arguments. -/
def Kind.command (kind : Kind) (found : List (String × String)) : Command :=
  let given (name : String) : String := (found.lookup name).getD ""
  match kind with
  | .parse => .parse (given "file")
  | .validate =>
    .validate (given "file") (found.lookup "sandbox").isSome (found.lookup "config")
  | .evaluate =>
    .evaluate (given "strategy") (given "data") (given "symbol") (given "signal")
      (found.lookup "config")

/-- The command `help`. -/
def helpWord : String := "help"

/-- Whether a word is a command. -/
def isCommandWord (word : String) : Bool :=
  word = helpWord || (Kind.ofWord? word).isSome

/-- What comes of asking for help: it is given for all commands or for one. -/
def askHelp : List String → UsageError
  | [] => .help
  | [word] => if isCommandWord word then .help else .invalidSubcommand
  | _ => .invalidSubcommand

/-- What comes of words behind `--` in place of a command. -/
def readEscaped : List String → UsageError
  | [] => .helpOnMissing
  | word :: _ => if isCommandWord word then .unknownArgument else .invalidSubcommand

/-- What comes of a word in place of a command that is none. -/
def readOther (word : String) (rest : List String) : UsageError :=
  match Word.ofString word with
  | .escape => readEscaped rest
  | .long name value =>
    if name = helpOption.name then (if value.isSome then .tooManyValues else .help)
    else .unknownArgument
  | .short letter _ => if helpOption.letter = some letter then .help else .unknownArgument
  | .plain _ => .invalidSubcommand

/-- Reads a command line. -/
def ofWords : List String → Except UsageError Command
  | [] => .error .helpOnMissing
  | word :: rest =>
    match Kind.ofWord? word with
    | some kind => do return kind.command (← kind.signature.read rest)
    | none => .error (if word = helpWord then askHelp rest else readOther word rest)

end Command

end TradingRules.CommandLine
