/-
# Reading from the front of a text

A scanner looks at the front of a text. It either fails, or gives what it read together with the
text that follows; a failed scanner has read nothing, since the text it was given is still at hand.
-/
import TradingRules.Text.Blank

namespace TradingRules.Text

/-- Reads a given word and gives what follows it. -/
def afterWord (word text : List Char) : Option (List Char) :=
  if word.isPrefixOf text then some (text.drop word.length) else none

/-- Reads a given character and gives what follows it. -/
def afterChar (expected : Char) : List Char → Option (List Char)
  | [] => none
  | c :: rest => if c = expected then some rest else none

/-- Reads up to the first character that satisfies `stop`, which is left in place. -/
def takeUntil (stop : Char → Bool) : List Char → Option (List Char × List Char)
  | [] => none
  | c :: rest =>
    if stop c then some ([], c :: rest)
    else (takeUntil stop rest).map fun (taken, after) => (c :: taken, after)

/-- Reads `( arguments )`, where the arguments run to the first closing parenthesis. -/
def parenthesized (text : List Char) : Option (List Char × List Char) := do
  let inner ← afterChar '(' (trimStart text)
  let (arguments, close) ← takeUntil (· == ')') inner
  return (arguments, close.drop 1)

/-- Whether a character is one of the two quotes. -/
def isQuote (c : Char) : Bool :=
  c == '"' || c == '\''

/-- Reads a quoted text, which is not empty and holds no quote; either quote may open and close. -/
def quoted : List Char → Option (List Char × List Char)
  | [] => none
  | c :: rest =>
    if isQuote c then do
      let (content, close) ← takeUntil isQuote rest
      if content.isEmpty then none else some (content, close.drop 1)
    else none

/-- Reads `word ( "text" )`, with blanks allowed between the parts. -/
def quotedCall (word text : List Char) : Option (List Char × List Char) := do
  let call ← afterWord word text
  let inner ← afterChar '(' (trimStart call)
  let (content, tail) ← quoted (trimStart inner)
  let rest ← afterChar ')' (trimStart tail)
  return (content, rest)

/-- Reads `word ( digits )`, with blanks allowed between the parts. -/
def integerCall (word text : List Char) : Option (List Char × List Char) := do
  let call ← afterWord word text
  let inner ← afterChar '(' (trimStart call)
  let digits := (trimStart inner).takeWhile Char.isDigit
  if digits.isEmpty then none
  else do
    let tail := (trimStart inner).dropWhile Char.isDigit
    let rest ← afterChar ')' (trimStart tail)
    return (digits, rest)

/-- What a scanner reads when it uses up the whole text. -/
def whole {α : Type} (scan : List Char → Option (α × List Char)) (text : List Char) : Option α :=
  match scan text with
  | some (found, []) => some found
  | _ => none

end TradingRules.Text
