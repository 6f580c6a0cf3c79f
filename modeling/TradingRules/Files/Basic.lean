/-
# Files

A file system gives the text of a file and the names of the entries of a directory. Paths are texts
with slashes between the names.
-/

namespace TradingRules

/-- Why a file or a directory cannot be read. -/
inductive FileError where
  | notFound
  | notDirectory
  | isDirectory
  | nameTooLong
  /-- The bytes of a file are no text. -/
  | notText
  /-- A path holds the character zero. -/
  | zeroInPath
  /-- Whatever else a system complains of. -/
  | other (wording : String)
deriving DecidableEq, Repr

/-- The wording of the complaint. -/
def FileError.message : FileError → String
  | .notFound => "No such file or directory (os error 2)"
  | .notDirectory => "Not a directory (os error 20)"
  | .isDirectory => "Is a directory (os error 21)"
  | .nameTooLong => "File name too long (os error 36)"
  | .notText => "stream did not contain valid UTF-8"
  | .zeroInPath => "file name contained an unexpected NUL byte"
  | .other wording => wording

/-- What can be read, by the path. -/
structure FileSystem where
  /-- The text of a file. -/
  read : String → Except FileError String
  /-- The names of the entries of a directory, in any order. -/
  entries : String → Except FileError (List String)

/-- The file system that holds what has been found at some paths, and nothing else. -/
def FileSystem.ofFindings (texts : List (String × Except FileError String))
    (directories : List (String × Except FileError (List String))) : FileSystem where
  read path := (texts.lookup path).getD (.error .notFound)
  entries path := (directories.lookup path).getD (.error .notFound)

/-- The path of a name in a directory; an absolute path stays as it is. -/
def joinPath (directory name : String) : String :=
  if name.startsWith "/" then name
  else if directory.isEmpty ∨ directory.endsWith "/" then directory ++ name
  else directory ++ "/" ++ name

end TradingRules
