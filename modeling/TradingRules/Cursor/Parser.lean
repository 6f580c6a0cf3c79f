/-
# The parsers, by offsets

The parts of the parsers that cut their text at a number of bytes, or start a cursor there. Every
such cut is one that may abort, and an abort of a part is an abort of the whole.
-/
import TradingRules.Cursor.Basic
import TradingRules.Strategy.Parser

namespace TradingRules.Cursor

open TradingRules.Text

/-- What an operation reads at the beginning of a text, when it uses up the whole text. -/
def whole {α : Type} (text : List Char) (op : Move (Option α)) : Option (Option α) := do
  let (result, offset) ← op 0
  return if width text ≤ offset then result else none

/-- Cuts a comparison at the first comparison character that has a character before it. -/
def splitComparison (text : List Char) :
    Option (Option (List Char × List Char × List Char)) :=
  match text.head? with
  | none => return none
  | some first => do
    match find Condition.isComparisonChar (← sliceFrom first.utf8Size text) with
    | none => return none
    | some found =>
      let start := first.utf8Size + found
      let rest ← sliceFrom start text
      let size := (find (fun c => !Condition.isComparisonChar c) rest).getD (width rest)
      let right := trim (← sliceFrom size rest)
      if right.isEmpty then return none
      else return some (trim (← sliceTo start text), ← sliceTo size rest, right)

/-- The arguments of a call whose word begins at an offset; a purchase must have some. -/
def callAt (kind : Action.Kind) (text : List Char) (start : Nat) :
    Option (Option (List Char)) := do
  let (arguments, _) ← parenthesized text (start + width kind.word.toList)
  return arguments.filter fun arguments => kind ≠ .buy ∨ !arguments.isEmpty

/-- The arguments of the first call of a kind. -/
def findCall (kind : Action.Kind) (text : List Char) : Option (Option (List Char)) :=
  (occurrences kind.word.toList text).findSomeM? (callAt kind text)

/-- The name of the strategy in a text. -/
def findName (source : List Char) : Option (Option (List Char)) :=
  (occurrences "strategy".toList source).findSomeM? fun start => do
    let (name, _) ← quotedCall source "strategy".toList start
    return name

/-- Whether the word `if` at an offset stands alone and has a blank behind it. -/
def standsAlone (text : List Char) (start : Nat) : Option Bool := do
  let before := (← sliceTo start text).getLast?
  let after := (← sliceFrom (start + width "if".toList) text).head?
  return !before.any isWordChar && after.any isBlank

/-- The offset of the next word `if` that stands alone. -/
def nextIf (text : List Char) : Option (Option Nat) :=
  (occurrences "if".toList text).findM? (standsAlone text)

/-- Cuts out the block behind the cursor, which stands behind its `if`. -/
def cutBlock (source : List Char) : Move (Except SyntaxError Strategy.Block) := do
  match ← takeUntil source (· == '\x7b') with
  | none => return .error .missingOpenBrace
  | some condition =>
    let _ ← advance source
    match ← takeUntil source (· == '\x7d') with
    | none => return .error .missingCloseBrace
    | some body =>
      let _ ← advance source
      if (trim body).isEmpty then
        return .error (.emptyBlock (String.ofList (trim condition)))
      else
        return .ok ⟨trim condition, trim body⟩

/-! ### A block leaves the cursor further on -/

/-- An operation that does not move the cursor back. -/
def Advances {α : Type} (op : Move α) : Prop :=
  ∀ ⦃offset next : Nat⦄ ⦃result : α⦄, op offset = some (result, next) → offset ≤ next

theorem Advances.pure {α : Type} (result : α) : Advances (pure result : Move α) := by
  intro offset next result' h
  cases h
  exact Nat.le_refl _

theorem Advances.bind {α β : Type} {op : Move α} {after : α → Move β} (hop : Advances op)
    (hafter : ∀ found, Advances (after found)) : Advances (op >>= after) := by
  intro offset next result h
  obtain ⟨⟨found, between⟩, hfirst, hsecond⟩ := Option.bind_eq_some_iff.mp h
  exact Nat.le_trans (hop hfirst) (hafter found hsecond)

/-- A slice is taken without moving the cursor. -/
theorem advances_lift {α : Type} (slice : Option α) : Advances (liftM slice : Move α) := by
  intro offset next result h
  obtain ⟨found, -, hfound⟩ := Option.bind_eq_some_iff.mp h
  cases hfound
  exact Nat.le_refl _

theorem advances_modify (size : Nat) : Advances (modify (· + size) : Move PUnit) := by
  intro offset next result h
  cases h
  exact Nat.le_add_right offset size

theorem advances_remaining (text : List Char) : Advances (remaining text) := by
  intro offset next result h
  exact advances_lift (sliceFrom offset text) h

theorem advances_advance (text : List Char) : Advances (advance text) := by
  refine ((advances_remaining text).bind fun rest => Advances.pure rest.head?).bind fun c => ?_
  cases c with
  | none => exact Advances.pure none
  | some c => exact (advances_modify c.utf8Size).bind fun _ => Advances.pure (some c)

theorem advances_takeUntil (text : List Char) (stop : Char → Bool) :
    Advances (takeUntil text stop) := by
  refine (advances_remaining text).bind fun rest => ?_
  cases find stop rest with
  | none => exact Advances.pure none
  | some size =>
    exact (advances_modify size).bind fun _ =>
      (advances_lift (sliceTo size rest)).bind fun taken => Advances.pure (some taken)

theorem advances_cutBlock (source : List Char) : Advances (cutBlock source) := by
  refine (advances_takeUntil source _).bind fun condition => ?_
  cases condition with
  | none => exact Advances.pure _
  | some condition =>
    refine (advances_advance source).bind fun _ => (advances_takeUntil source _).bind fun body => ?_
    cases body with
    | none => exact Advances.pure _
    | some body =>
      refine (advances_advance source).bind fun _ => ?_
      split
      · exact Advances.pure _
      · exact Advances.pure _

/-- Where a word `if` follows, the text has not ended. -/
theorem lt_width_of_nextIf {source : List Char} {offset found : Nat}
    (h : (sliceFrom offset source).bind nextIf = some (some found)) : offset < width source := by
  obtain ⟨rest, hrest, hfound⟩ := Option.bind_eq_some_iff.mp h
  cases rest with
  | nil => cases hfound
  | cons c rest =>
    have := add_utf8Size_le_width hrest
    have := c.utf8Size_pos
    omega

/-! ## The blocks -/

/-- Cuts out the blocks behind an offset. -/
def cutBlocksFrom (source : List Char) (offset : Nat) :
    Option (Except SyntaxError (List Strategy.Block)) :=
  match _h : (sliceFrom offset source).bind nextIf with
  | none => none
  | some none => some (.ok [])
  | some (some found) =>
    match _h' : cutBlock source (offset + found + width "if".toList) with
    | none => none
    | some (.error e, _) => some (.error e)
    | some (.ok b, next) => do
      let more ← cutBlocksFrom source next
      return more.map (b :: ·)
termination_by width source - offset
decreasing_by
  have := lt_width_of_nextIf _h
  have := advances_cutBlock source _h'
  have : 0 < width "if".toList := by decide
  omega

/-- Cuts a text into its blocks. -/
def cutBlocks (source : List Char) : Option (Except SyntaxError (List Strategy.Block)) :=
  cutBlocksFrom source 0

end TradingRules.Cursor
