/-
# The program

The files that a command needs are read first; then the command is carried out on what was found.
-/
import TradingRules.CommandLine.Run

namespace TradingRules.CommandLine

/-- What a system says about a file, by its code. -/
def fileError (code : UInt32) (details : String) : FileError :=
  match code.toNat with
  | 2 => .notFound
  | 20 => .notDirectory
  | 21 => .isDirectory
  | 36 => .nameTooLong
  | code => .other (details ++ " (os error " ++ toString code ++ ")")

/-- What an error of input or output says about a file. -/
def ofSystem : IO.Error → FileError
  | .noFileOrDirectory .. => .notFound
  | .inappropriateType _ code details => fileError code details
  | .invalidArgument _ code details => fileError code details
  | .permissionDenied _ code details => fileError code details
  | e => .other (toString e)

/-- Reads a file as text. -/
def readText (path : String) : IO (Except FileError String) := do
  try
    let bytes ← IO.FS.readBinFile path
    return match String.fromUTF8? bytes with
      | some text => .ok text
      | none => .error .notText
  catch e => return .error (ofSystem e)

/-- Lists the names of the entries of a directory. -/
def readEntries (path : String) : IO (Except FileError (List String)) := do
  try
    let entries ← ((← IO.currentDir) / path).readDir
    return .ok (entries.toList.map (·.fileName))
  catch e => return .error (ofSystem e)

/-- Finds out what a command needs to know about files. -/
def findings (command : Command) : IO FileSystem := do
  let texts ← command.files.mapM fun path => do return (path, ← readText path)
  let directories ← command.directories.mapM fun path => do return (path, ← readEntries path)
  return .ofFindings texts directories

/-- How the program is called. -/
def usage : String :=
  "Commands:\n" ++
  "  parse FILE\n" ++
  "  validate FILE [--sandbox] [-c FILE]\n" ++
  "  eval -s FILE -d DIRECTORY --symbol SYMBOL [--signal TEXT] [-c FILE]"

end TradingRules.CommandLine

open TradingRules.CommandLine in
/-- Carries out a command line. -/
def main (words : List String) : IO UInt32 := do
  match Command.ofWords words with
  | .error .help =>
    IO.println usage
    return 0
  | .error e =>
    IO.eprintln usage
    return .ofNat e.exitCode
  | .ok command =>
    let outcome := command.run (← findings command) .prompt
    IO.print outcome.output
    IO.eprint outcome.complaints
    return .ofNat outcome.exitCode
