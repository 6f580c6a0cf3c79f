/-
# Reading conditions

Precedence goes by position. A clause is cut at the first ` and ` if it has one, otherwise at the
first ` or `; what stands on either side is trimmed and read in the same way. So the tree leans to
the right, and `a or b and c` joins `a or b` with `c`.

A clause without connectives is a comparison if it has a comparison character behind its first
character and something behind the comparison symbol; otherwise it is a single expression.
-/
import TradingRules.Condition.Basic
import TradingRules.Expression.Parser
import TradingRules.Text.Search

namespace TradingRules.Condition

open TradingRules.Text

/-- The deepest nesting of connectives. -/
def maxNesting : Nat := 256

/-- A connective as it stands between two clauses. -/
def mark (connective : Connective) : List Char :=
  ' ' :: connective.word.toList ++ [' ']

/-- Cuts a clause at its connective: the first ` and `, or the first ` or ` if there is none. -/
def splitJoin (clause : List Char) : Option (Connective × List Char × List Char) :=
  match cutAt (mark .and) clause with
  | some (left, right) => some (.and, left, right)
  | none => (cutAt (mark .or) clause).map fun (left, right) => (.or, left, right)

/-- Whether a character belongs to the symbol of a comparison. -/
def isComparisonChar (c : Char) : Bool :=
  c == '<' || c == '>' || c == '='

/-- Cuts a clause at the first comparison character that has a character before it. The symbol is
the whole row of such characters; something other than blanks must follow it. -/
def splitComparison : List Char → Option (List Char × List Char × List Char)
  | [] => none
  | first :: rest =>
    match takeUntil isComparisonChar rest with
    | none => none
    | some (before, tail) =>
      let right := trim (tail.dropWhile isComparisonChar)
      if right.isEmpty then none
      else some (trim (first :: before), tail.takeWhile isComparisonChar, right)

/-- Reads a trimmed clause without connectives. -/
def leaf (clause : List Char) : Except SyntaxError Condition :=
  match splitComparison clause with
  | some (left, symbol, right) =>
    match Comparison.ofSymbol? (String.ofList symbol) with
    | none => .error (.unknownComparison (String.ofList symbol))
    | some comparison => do
      let left ← Expression.parse left
      let right ← Expression.parse right
      return .compare left comparison right
  | none => return .holds (← Expression.parse clause)

/-! ### The parts of a clause are shorter than the clause -/

theorem length_cutAt {mark text left right : List Char} (h : cutAt mark text = some (left, right)) :
    left.length + mark.length + right.length = text.length := by
  induction text generalizing left with
  | nil =>
    simp only [cutAt] at h
    split at h
    · simp_all
    · simp at h
  | cons c rest ih =>
    simp only [cutAt] at h
    split at h
    · rename_i hp
      simp only [Option.some.injEq, Prod.mk.injEq] at h
      have := (List.isPrefixOf_iff_prefix.mp hp).length_le
      rw [← h.1, ← h.2]
      simp only [List.length_nil, List.length_drop]; omega
    · simp only [Option.map_eq_some_iff, Prod.mk.injEq, Prod.exists] at h
      obtain ⟨before, after, hc, rfl, rfl⟩ := h
      have := ih hc
      simp only [List.length_cons]; omega

theorem length_trim_le (text : List Char) : (trim text).length ≤ text.length := by
  have dropWhile (l : List Char) : (l.dropWhile isBlank).length ≤ l.length :=
    (List.dropWhile_sublist _).length_le
  simp only [trim, trimEnd, trimStart, List.length_reverse]
  exact Nat.le_trans (dropWhile _) (by simpa using dropWhile text)

theorem length_splitJoin {clause left right : List Char} {connective : Connective}
    (h : splitJoin clause = some (connective, left, right)) :
    left.length < clause.length ∧ right.length < clause.length := by
  have positive : 0 < (mark connective).length := by simp [mark]
  simp only [splitJoin] at h
  split at h
  · simp only [Option.some.injEq, Prod.mk.injEq] at h
    obtain ⟨rfl, rfl, rfl⟩ := h
    have := length_cutAt ‹_›
    omega
  · simp only [Option.map_eq_some_iff, Prod.mk.injEq, Prod.exists] at h
    obtain ⟨_, _, hc, rfl, rfl, rfl⟩ := h
    have := length_cutAt hc
    omega

/-! ## The parser -/

/-- Reads a trimmed clause that stands inside a number of connectives. -/
def parseWithin (depth : Nat) (clause : List Char) : Except SyntaxError Condition :=
  if depth > maxNesting then .error (.nestingLimit maxNesting)
  else if clause.isEmpty then .error .emptyCondition
  else
    match _h : splitJoin clause with
    | some (connective, left, right) => do
      let left ← parseWithin (depth + 1) (trim left)
      let right ← parseWithin (depth + 1) (trim right)
      return .join connective left right
    | none => leaf clause
termination_by clause.length
decreasing_by
  · exact Nat.lt_of_le_of_lt (length_trim_le left) (length_splitJoin _h).1
  · exact Nat.lt_of_le_of_lt (length_trim_le right) (length_splitJoin _h).2

/-- Reads a condition. -/
def parse (text : List Char) : Except SyntaxError Condition :=
  parseWithin 0 (trim text)

end TradingRules.Condition
