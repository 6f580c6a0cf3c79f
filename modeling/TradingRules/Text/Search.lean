/-
# Finding a mark in a text

Texts are searched as lists of characters, from the left. A search either cuts the text at the first
occurrence of a mark or takes the first place from which some reader succeeds.
-/

namespace TradingRules.Text

/-- Cuts a text at the first occurrence of a mark, which itself is dropped. -/
def cutAt (mark : List Char) : List Char → Option (List Char × List Char)
  | [] => if mark.isEmpty then some ([], []) else none
  | c :: rest =>
    if mark.isPrefixOf (c :: rest) then some ([], (c :: rest).drop mark.length)
    else (cutAt mark rest).map fun (before, after) => (c :: before, after)

/-- Whether a mark occurs somewhere in a text. -/
def occursIn (mark : List Char) : List Char → Bool
  | [] => mark.isEmpty
  | c :: rest => mark.isPrefixOf (c :: rest) || occursIn mark rest

/-- What the reader makes of the longest end of the text that it accepts: it is tried at every
place, from the left. -/
def firstAt {α : Type} (read : List Char → Option α) : List Char → Option α
  | [] => read []
  | c :: rest =>
    match read (c :: rest) with
    | some found => some found
    | none => firstAt read rest

/-- The pieces of a text between the occurrences of a separating character; there is always one more
piece than there are separators. -/
def splitOn (separator : Char) : List Char → List (List Char)
  | [] => [[]]
  | c :: rest =>
    if c = separator then [] :: splitOn separator rest
    else
      match splitOn separator rest with
      | [] => [[c]]
      | piece :: pieces => (c :: piece) :: pieces

end TradingRules.Text
