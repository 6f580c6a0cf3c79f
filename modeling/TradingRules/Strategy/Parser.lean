/-
# Reading strategies

    strategy("name") {
        if condition { actions }
        …
    }

The name is given by the first complete call of `strategy`, wherever it stands. A block begins with
the word `if` standing alone; its condition runs to the first opening brace and its body to the
first closing brace behind that. All blocks are cut out before their conditions are read.
-/
import TradingRules.Strategy.Basic
import TradingRules.Condition.Parser
import TradingRules.Action.Parser
import TradingRules.Text.Alphanumeric

namespace TradingRules.Strategy

open TradingRules.Text

/-- The name of the strategy in a text. -/
def findName (source : List Char) : Option (List Char) :=
  firstAt (fun text => (quotedCall "strategy".toList text).map (·.1)) source

/-- What follows the word `if` and precedes the blank behind it, when a text begins so. -/
def afterIf (text : List Char) : Option (List Char) :=
  match afterWord "if".toList text with
  | some (c :: rest) => if isBlank c then some (c :: rest) else none
  | _ => none

/-- What follows the next word `if` that stands alone. `inWord` says whether a word character
precedes the text. -/
def nextIf (inWord : Bool) : List Char → Option (List Char)
  | [] => none
  | c :: rest =>
    match afterIf (c :: rest) with
    | some after => if inWord then nextIf (isWordChar c) rest else some after
    | none => nextIf (isWordChar c) rest

/-- The condition and the body of a block, trimmed. -/
structure Block where
  condition : List Char
  body : List Char
deriving DecidableEq, Repr

/-- Cuts out a block behind its `if`, and gives what follows it. -/
def cutBlock (text : List Char) : Except SyntaxError (Block × List Char) :=
  match takeUntil (· == '\x7b') text with
  | none => .error .missingOpenBrace
  | some (condition, opening) =>
    match takeUntil (· == '\x7d') (opening.drop 1) with
    | none => .error .missingCloseBrace
    | some (body, closing) =>
      if (trim body).isEmpty then .error (.emptyBlock (String.ofList (trim condition)))
      else .ok (⟨trim condition, trim body⟩, closing.drop 1)

/-! ### Each block is followed by less text -/

theorem length_afterIf_le {text rest : List Char} (h : afterIf text = some rest) :
    rest.length + 2 ≤ text.length := by
  unfold afterIf at h
  split at h
  · rename_i c tail hw
    split at h
    · simp only [Option.some.injEq] at h
      unfold afterWord at hw
      split at hw
      · rename_i hp
        have := (List.isPrefixOf_iff_prefix.mp hp).length_le
        simp only [Option.some.injEq] at hw
        rw [← h, ← hw, List.length_drop]
        simp only [String.reduceToList, List.length_cons, List.length_nil] at this ⊢
        omega
      · cases hw
    · cases h
  · cases h

theorem length_nextIf_le {inWord : Bool} {text rest : List Char}
    (h : nextIf inWord text = some rest) : rest.length + 2 ≤ text.length := by
  induction text generalizing inWord with
  | nil => cases h
  | cons c tail ih =>
    simp only [nextIf] at h
    split at h
    · rename_i after ha
      split at h
      · have := ih h
        simp only [List.length_cons]; omega
      · simp only [Option.some.injEq] at h
        exact h ▸ length_afterIf_le ha
    · have := ih h
      simp only [List.length_cons]; omega

theorem length_takeUntil {stop : Char → Bool} {text taken rest : List Char}
    (h : takeUntil stop text = some (taken, rest)) : taken.length + rest.length = text.length := by
  induction text generalizing taken with
  | nil => cases h
  | cons c tail ih =>
    simp only [takeUntil] at h
    split at h
    · simp only [Option.some.injEq, Prod.mk.injEq] at h
      rw [← h.1, ← h.2]; simp
    · simp only [Option.map_eq_some_iff, Prod.mk.injEq, Prod.exists] at h
      obtain ⟨t, r, hc, rfl, rfl⟩ := h
      have := ih hc
      simp only [List.length_cons]; omega

theorem length_cutBlock_le {text rest : List Char} {b : Block} (h : cutBlock text = .ok (b, rest)) :
    rest.length ≤ text.length := by
  unfold cutBlock at h
  split at h
  · cases h
  · rename_i condition opening ho
    split at h
    · cases h
    · rename_i body closing hc
      split at h
      · cases h
      · simp only [Except.ok.injEq, Prod.mk.injEq] at h
        have h1 := length_takeUntil ho
        have h2 := length_takeUntil hc
        rw [← h.2]
        simp only [List.length_drop] at h2 ⊢
        omega

/-! ## The parser -/

/-- Cuts a text into its blocks. -/
def cutBlocks (text : List Char) : Except SyntaxError (List Block) :=
  match _h : nextIf false text with
  | none => .ok []
  | some start =>
    match _h' : cutBlock start with
    | .error e => .error e
    | .ok (b, rest) => do
      let more ← cutBlocks rest
      return b :: more
termination_by text.length
decreasing_by
  have := length_nextIf_le _h
  have := length_cutBlock_le _h'
  omega

/-- Reads a block as a rule. -/
def Block.rule (b : Block) : Except SyntaxError Rule := do
  let condition ← Condition.parse b.condition
  return ⟨condition, Action.parse b.body⟩

/-- Reads blocks as rules; the first fault counts. -/
def readRules : List Block → Except SyntaxError (List Rule)
  | [] => .ok []
  | b :: rest => do
    let rule ← b.rule
    let more ← readRules rest
    return rule :: more

/-- Reads the characters of a strategy. -/
def parseChars (source : List Char) : Except SyntaxError Strategy :=
  match findName source with
  | none => .error .nameNotFound
  | some name => do
    let blocks ← cutBlocks source
    let rules ← readRules blocks
    return ⟨String.ofList name, rules⟩

/-- Reads a strategy. -/
def parse (source : String) : Except SyntaxError Strategy :=
  parseChars source.toList

/-- The faults of a text; only the first is found. -/
def faults (source : String) : List SyntaxError :=
  match parse source with
  | .ok _ => []
  | .error e => [e]

end TradingRules.Strategy
