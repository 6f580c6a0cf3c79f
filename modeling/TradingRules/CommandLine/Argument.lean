/-
# Arguments of a command

A command has options with a value, flags, and at most one operand that stands by itself. Words are
read one after the other. The value of an option is its next word, unless that looks like an option,
or is attached to it; it is recorded when the next thing is read, so a word that is not understood
hides what is wrong with the option before it. Behind `--` every word is an operand.
-/

namespace TradingRules.CommandLine

/-- Why a command line is not understood, or asks for help only. -/
inductive UsageError where
  | missingArgument
  | unknownArgument
  | invalidSubcommand
  | invalidValue
  | tooManyValues
  | argumentConflict
  | help
  | helpOnMissing
deriving DecidableEq, Repr

/-- The exit code of a command line that is not carried out. -/
def UsageError.exitCode : UsageError → Nat
  | .help => 0
  | _ => 2

/-- What an argument takes. -/
inductive ValueKind where
  /-- A flag takes nothing. -/
  | nothing
  /-- A request for help takes nothing. -/
  | help
  | text
  /-- A path is a text that is not empty. -/
  | path
deriving DecidableEq, Repr

/-- An argument that a command has. -/
structure Argument where
  name : String
  letter : Option Char := none
  kind : ValueKind
  required : Bool := false
deriving DecidableEq, Repr

/-- Whether an argument takes a value. -/
def Argument.takesValue (a : Argument) : Bool :=
  a.kind = .text || a.kind = .path

/-- The arguments of a command. -/
structure Signature where
  options : List Argument
  operand : Option Argument := none
deriving DecidableEq, Repr

/-- The request for help, which every command has. -/
def helpOption : Argument where
  name := "help"
  letter := some 'h'
  kind := .help

/-- The option with a name. -/
def Signature.named (s : Signature) (name : String) : Option Argument :=
  (helpOption :: s.options).find? (·.name = name)

/-- The option with a letter. -/
def Signature.lettered (s : Signature) (letter : Char) : Option Argument :=
  (helpOption :: s.options).find? (·.letter = some letter)

/-! ## Words -/

/-- How a word looks. -/
inductive Word where
  /-- The word `--`. -/
  | escape
  /-- A word `--name` or `--name=value`. -/
  | long (name : String) (value : Option String)
  /-- A word of a hyphen and at least one letter. -/
  | short (first : Char) (rest : List Char)
  | plain (text : String)
deriving DecidableEq, Repr

/-- Looks at a word. -/
def Word.ofString (text : String) : Word :=
  match text.toList with
  | ['-', '-'] => .escape
  | '-' :: '-' :: body =>
    match body.span (· ≠ '=') with
    | (name, []) => .long (String.ofList name) none
    | (name, _ :: value) => .long (String.ofList name) (some (String.ofList value))
  | '-' :: c :: rest => .short c rest
  | _ => .plain text

/-! ## Reading -/

/-- An argument that has been met, with the value that it has so far. -/
structure Pending where
  argument : Argument
  value : Option String
deriving DecidableEq, Repr

/-- What has been read of the words of a command. -/
structure Scan where
  /-- The names of the recorded arguments, with their values. -/
  found : List (String × String) := []
  /-- The argument that is not recorded yet. -/
  pending : Option Pending := none
  /-- Whether the operand has been met. -/
  operandMet : Bool := false
  /-- Whether all further words are operands. -/
  escaped : Bool := false
deriving DecidableEq, Repr

namespace Scan

/-- Records an argument. -/
def record (s : Scan) (p : Pending) : Except UsageError Scan :=
  if p.argument.kind = .help then .error .help
  else if p.argument.takesValue ∧ p.value.isNone then .error .invalidValue
  else if (s.found.lookup p.argument.name).isSome then .error .argumentConflict
  else if p.argument.kind = .path ∧ p.value = some "" then .error .invalidValue
  else .ok { s with found := (p.argument.name, p.value.getD "") :: s.found }

/-- Records the argument that is not recorded yet. -/
def settle (s : Scan) : Except UsageError Scan :=
  match s.pending with
  | some p => { s with pending := none }.record p
  | none => .ok s

/-- Meets an argument that is complete. -/
def meet (s : Scan) (a : Argument) (value : Option String) : Except UsageError Scan := do
  (← s.settle).record ⟨a, value⟩

/-- Meets an option whose value is in the next word. -/
def await (s : Scan) (a : Argument) : Except UsageError Scan := do
  return { ← s.settle with pending := some ⟨a, none⟩ }

/-- Reads an option by its name. -/
def readLong (sig : Signature) (s : Scan) (name : String) (value : Option String) :
    Except UsageError Scan :=
  match sig.named name with
  | none => .error .unknownArgument
  | some a =>
    if a.takesValue then
      match value with
      | some _ => s.meet a value
      | none => s.await a
    else if value.isSome then .error .tooManyValues
    else s.meet a none

/-- Reads letters: flags, or an option with its value. -/
def readShort (sig : Signature) (s : Scan) (letter : Char) (rest : List Char) :
    Except UsageError Scan :=
  match sig.lettered letter with
  | none => .error .unknownArgument
  | some a =>
    if a.takesValue then
      match rest with
      | [] => s.await a
      | '=' :: value => s.meet a (some (String.ofList value))
      | value => s.meet a (some (String.ofList value))
    else do
      let s ← s.meet a none
      match rest with
      | [] => return s
      | letter :: rest => readShort sig s letter rest

/-- Reads a word that stands by itself. -/
def readOperand (sig : Signature) (s : Scan) (text : String) : Except UsageError Scan :=
  match sig.operand with
  | some a =>
    if s.operandMet then .error .unknownArgument
    else do return { ← s.settle with pending := some ⟨a, some text⟩, operandMet := true }
  | none => .error .unknownArgument

/-- Reads a word that does not look like an option: the value of the option before it, or an
operand. -/
def readPlain (sig : Signature) (s : Scan) (text : String) : Except UsageError Scan :=
  match s.pending with
  | some ⟨a, none⟩ => .ok { s with pending := some ⟨a, some text⟩ }
  | _ => s.readOperand sig text

/-- Reads a word. -/
def step (sig : Signature) (s : Scan) (text : String) : Except UsageError Scan :=
  if s.escaped then s.readOperand sig text
  else
    match Word.ofString text with
    | .escape => .ok { s with escaped := true }
    | .long name value => s.readLong sig name value
    | .short letter rest => s.readShort sig letter rest
    | .plain text => s.readPlain sig text

end Scan

/-- All arguments of a command that must be given. -/
def Signature.required (sig : Signature) : List Argument :=
  (sig.operand.toList ++ sig.options).filter (·.required)

/-- Reads the words of a command: the names of the arguments that are given, with their values. -/
def Signature.read (sig : Signature) (words : List String) :
    Except UsageError (List (String × String)) := do
  let s ← words.foldlM (Scan.step sig) {}
  let s ← s.settle
  if sig.required.all fun a => (s.found.lookup a.name).isSome then return s.found
  else .error .missingArgument

end TradingRules.CommandLine
