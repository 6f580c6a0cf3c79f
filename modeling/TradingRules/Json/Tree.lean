/-
# A JSON text as a tree

The tree holds what a text spells, as far as the text goes: a break stands where it stops being
JSON. So one tree serves readers who want different parts of it and who meet a break at different
times. Numerals, lone surrogates and the depth of nesting are judged by the readers.

The tree is built by one pass over the tokens, with a stack of the lists and objects that are open.
-/
import TradingRules.Json.Token

namespace TradingRules.Json

/-- How a list or an object ends: as it should, or by a break in place of a comma or its end. -/
inductive Ending where
  | closed
  | broken (b : Break)
deriving DecidableEq, Repr

/-- What a JSON text spells. A string, and the name of a member, is `none` if it denotes no text. -/
inductive Tree where
  | null
  | bool (b : Bool)
  | number (n : Numeral)
  | string (text : Option String)
  | array (items : List Tree) (ending : Ending)
  | object (members : List (Option String × Tree)) (ending : Ending)
  | broken (b : Break)
deriving Repr, Inhabited

/-! ## Building -/

/-- A list or an object that waits for a value, with what it holds already, latest first. -/
inductive Frame where
  | item (before : List Tree)
  | member (before : List (Option String × Tree)) (name : Option String)

/-- What has been read of a text, and so what may come next. -/
inductive Progress where
  /-- A value. -/
  | value (outer : List Frame)
  /-- The first item of a list, or its end. -/
  | firstItem (outer : List Frame)
  /-- A comma, or the end of the list. -/
  | afterItem (before : List Tree) (outer : List Frame)
  /-- The name of the first member of an object, or its end. -/
  | firstName (outer : List Frame)
  /-- The name of a further member. -/
  | nextName (before : List (Option String × Tree)) (outer : List Frame)
  /-- The colon behind a name. -/
  | colon (before : List (Option String × Tree)) (name : Option String) (outer : List Frame)
  /-- A comma, or the end of the object. -/
  | afterMember (before : List (Option String × Tree)) (outer : List Frame)
  /-- The end of the text. -/
  | complete (root : Tree)
  /-- Nothing: something stands behind the value. -/
  | trailing (root : Tree)
  /-- Nothing: there was a break. -/
  | stopped (root : Tree)

/-- Puts a value where it is waited for. -/
def place (value : Tree) : List Frame → Progress
  | [] => .complete value
  | .item before :: outer => .afterItem (value :: before) outer
  | .member before name :: outer => .afterMember ((name, value) :: before) outer

/-- The tree of a text that goes no further than the given value. -/
def abandon (value : Tree) : List Frame → Tree
  | [] => value
  | .item before :: outer => abandon (.array (value :: before).reverse .closed) outer
  | .member before name :: outer =>
    abandon (.object ((name, value) :: before).reverse .closed) outer

/-- Stops at a value that breaks off. -/
def stopAtValue (b : Break) (outer : List Frame) : Progress :=
  .stopped (abandon (.broken b) outer)

/-- Stops inside a list. -/
def stopInArray (b : Break) (before : List Tree) (outer : List Frame) : Progress :=
  .stopped (abandon (.array before.reverse (.broken b)) outer)

/-- Stops inside an object. -/
def stopInObject (b : Break) (before : List (Option String × Tree)) (outer : List Frame) :
    Progress :=
  .stopped (abandon (.object before.reverse (.broken b)) outer)

/-- Goes on with the first token of a value. -/
def startValue (outer : List Frame) : Token → Progress
  | .null => place .null outer
  | .bool b => place (.bool b) outer
  | .number n => place (.number n) outer
  | .string text => place (.string text) outer
  | .openArray => .firstItem outer
  | .openObject => .firstName outer
  | .brokenString b => stopAtValue b outer
  | .broken b => stopAtValue b outer
  | .closeArray | .closeObject | .comma | .colon => stopAtValue (.same .malformed) outer

/-- Goes on with the name of a member. -/
def startName (before : List (Option String × Tree)) (outer : List Frame) : Token → Progress
  | .string name => .colon before name outer
  | .brokenString b => stopInObject b before outer
  | _ => stopInObject (.same .malformed) before outer

/-- Goes on with a token. -/
def Progress.step : Progress → Token → Progress
  | .value outer, t => startValue outer t
  | .firstItem outer, t =>
    if t = .closeArray then place (.array [] .closed) outer else startValue (.item [] :: outer) t
  | .afterItem before outer, t =>
    if t = .comma then .value (.item before :: outer)
    else if t = .closeArray then place (.array before.reverse .closed) outer
    else stopInArray (.same .malformed) before outer
  | .firstName outer, t =>
    if t = .closeObject then place (.object [] .closed) outer else startName [] outer t
  | .nextName before outer, t => startName before outer t
  | .colon before name outer, t =>
    if t = .colon then .value (.member before name :: outer)
    else stopAtValue (.same .malformed) (.member before name :: outer)
  | .afterMember before outer, t =>
    if t = .comma then .nextName before outer
    else if t = .closeObject then place (.object before.reverse .closed) outer
    else stopInObject (.same .malformed) before outer
  | .complete root, _ => .trailing root
  | .trailing root, _ => .trailing root
  | .stopped root, _ => .stopped root

/-- A text as a tree, and whether something stands behind the value. -/
structure Document where
  root : Tree
  trailing : Bool

/-- Ends where the text ends. -/
def Progress.finish : Progress → Document
  | .value outer => ⟨abandon (.broken (.same .unexpectedEnd)) outer, false⟩
  | .firstItem outer => ⟨abandon (.array [] (.broken (.same .unexpectedEnd))) outer, false⟩
  | .afterItem before outer =>
    ⟨abandon (.array before.reverse (.broken (.same .unexpectedEnd))) outer, false⟩
  | .firstName outer => ⟨abandon (.object [] (.broken (.same .unexpectedEnd))) outer, false⟩
  | .nextName before outer =>
    ⟨abandon (.object before.reverse (.broken (.same .unexpectedEnd))) outer, false⟩
  | .colon before name outer =>
    ⟨abandon (.broken (.same .unexpectedEnd)) (.member before name :: outer), false⟩
  | .afterMember before outer =>
    ⟨abandon (.object before.reverse (.broken (.same .unexpectedEnd))) outer, false⟩
  | .complete root => ⟨root, false⟩
  | .trailing root => ⟨root, true⟩
  | .stopped root => ⟨root, false⟩

/-- The tree of a text. -/
def document (text : List Char) : Document :=
  ((tokens text).foldl Progress.step (.value [])).finish

end TradingRules.Json
