/-
# A tree of files

Files and directories that are given in advance, below a root that is also the current directory.
-/
import TradingRules.Files.Basic
import TradingRules.Text.Search

namespace TradingRules

/-- What stands at a path. -/
inductive FileTree.Node where
  /-- A file; there is no content if its bytes are no text. -/
  | file (content : Option String)
  | directory
deriving DecidableEq, Repr

/-- Nodes by the names on the way to them. The directories on the way need not be given. -/
structure FileTree where
  nodes : List (List String × FileTree.Node)
deriving DecidableEq, Repr

namespace FileTree

/-- The names of a path. -/
def names (path : String) : List String :=
  (Text.splitOn '/' path.toList).map String.ofList

/-- Whether a name stays where it is. -/
def isIdle (name : String) : Bool :=
  name = "" || name = "."

/-- The tree with a further node. -/
def insert (t : FileTree) (path : String) (node : Node) : FileTree where
  nodes := ((names path).filter fun name => !isIdle name, node) :: t.nodes

/-- What stands at the end of a way. -/
def node? (t : FileTree) (way : List String) : Option Node :=
  match t.nodes.lookup way with
  | some node => some node
  | none =>
    if way.isEmpty ∨ t.nodes.any (fun (way', _) => way.isPrefixOf way') then some .directory
    else none

/-- How many bytes a name may have. -/
def longestName : Nat := 255

/-- How many bytes a path may have. -/
def longestPath : Nat := 4095

/-- Follows names from a directory or a file. Only from a directory can one go on. -/
def follow (t : FileTree) (way : List String) (node : Node) :
    List String → Except FileError (List String × Node)
  | [] => .ok (way, node)
  | name :: rest =>
    match node with
    | .file _ => .error .notDirectory
    | .directory =>
      if isIdle name then t.follow way node rest
      else if name = ".." then t.follow way.dropLast .directory rest
      else if longestName < name.utf8ByteSize then .error .nameTooLong
      else
        match t.node? (way ++ [name]) with
        | some next => t.follow (way ++ [name]) next rest
        | none => .error .notFound

/-- Finds what stands at a path. -/
def find (t : FileTree) (path : String) : Except FileError (List String × Node) :=
  if path.contains '\x00' then .error .zeroInPath
  else if path.isEmpty then .error .notFound
  else if longestPath < path.utf8ByteSize then .error .nameTooLong
  else if path.startsWith "/" then .error .notFound
  else t.follow [] .directory (names path)

/-- The text of the file at a path. -/
def read (t : FileTree) (path : String) : Except FileError String := do
  match ← t.find path with
  | (_, .file (some content)) => return content
  | (_, .file none) => .error .notText
  | (_, .directory) => .error .isDirectory

/-- The names of what stands in the directory at the end of a way. -/
def children (t : FileTree) (way : List String) : List String :=
  (t.nodes.filterMap fun (way', _) =>
    if way.isPrefixOf way' then way'[way.length]? else none).eraseDups

/-- The names of the entries of the directory at a path. -/
def entries (t : FileTree) (path : String) : Except FileError (List String) := do
  match ← t.find path with
  | (way, .directory) => return t.children way
  | (_, .file _) => .error .notDirectory

/-- The tree as a file system. -/
def fileSystem (t : FileTree) : FileSystem where
  read := t.read
  entries := t.entries

end FileTree

end TradingRules
