/-
# A cursor in the bytes of a text

A text is kept in UTF-8, and the place that a scanner has reached in it is a number of bytes. What
stands in front of a place and what stands behind it are slices of the text, and a slice that would
cut a character in two, or pass the end, aborts the whole program. The operations below move such a
cursor forward, and put it back where they fail; `none` is the abort, so that an operation gives
`some (none, offset)` when it fails as it should.
-/
import TradingRules.Text.Scan

namespace TradingRules.Cursor

open TradingRules.Text

/-! ## Slices -/

/-- The number of bytes that a text takes. -/
def width : List Char → Nat
  | [] => 0
  | c :: rest => c.utf8Size + width rest

@[simp]
theorem width_nil : width [] = 0 := rfl

@[simp]
theorem width_cons (c : Char) (text : List Char) : width (c :: text) = c.utf8Size + width text := rfl

@[simp]
theorem width_append (front back : List Char) :
    width (front ++ back) = width front + width back := by
  induction front with
  | nil => exact (Nat.zero_add _).symm
  | cons c front ih => rw [List.cons_append, width_cons, width_cons, ih, Nat.add_assoc]

/-- Cuts a text behind the given number of bytes; there must be a character boundary. -/
def cut (offset : Nat) : List Char → Option (List Char × List Char)
  | [] => if offset = 0 then some ([], []) else none
  | c :: rest =>
    if offset = 0 then some ([], c :: rest)
    -- the offset leads into the character
    else if offset < c.utf8Size then none
    else (cut (offset - c.utf8Size) rest).map fun (before, after) => (c :: before, after)

/-- The first bytes of a text. -/
def sliceTo (offset : Nat) (text : List Char) : Option (List Char) :=
  (cut offset text).map (·.1)

/-- The text behind the given number of bytes. -/
def sliceFrom (offset : Nat) (text : List Char) : Option (List Char) :=
  (cut offset text).map (·.2)

/-- How many bytes stand in front of the first character that satisfies `stop`. -/
def find (stop : Char → Bool) : List Char → Option Nat
  | [] => none
  | c :: rest => if stop c then some 0 else (find stop rest).map (c.utf8Size + ·)

/-- The offsets at which a word occurs, where an occurrence is passed over as a whole: no other one
that overlaps it counts. The first number tells how many characters are still to be passed over. -/
def occurrencesFrom (word : List Char) (passed offset : Nat) : List Char → List Nat
  -- the empty word also occurs at the end
  | [] => if word.isEmpty then [offset] else []
  | c :: rest =>
    match passed with
    | passed + 1 => occurrencesFrom word passed (offset + c.utf8Size) rest
    | 0 =>
      if word.isPrefixOf (c :: rest) then
        offset :: occurrencesFrom word (word.length - 1) (offset + c.utf8Size) rest
      else occurrencesFrom word 0 (offset + c.utf8Size) rest

/-- The offsets of the occurrences of a word, from the left. -/
def occurrences (word text : List Char) : List Nat :=
  occurrencesFrom word 0 0 text

/-- A text is cut exactly behind the characters that take so many bytes. -/
theorem cut_eq_some_iff {offset : Nat} {text front rest : List Char} :
    cut offset text = some (front, rest) ↔ text = front ++ rest ∧ width front = offset := by
  induction text generalizing offset front with
  | nil =>
    rw [cut]
    constructor
    · intro h
      split at h
      · rename_i hoffset
        cases h
        exact ⟨rfl, hoffset.symm⟩
      · cases h
    · rintro ⟨htext, rfl⟩
      obtain ⟨rfl, rfl⟩ := List.append_eq_nil_iff.mp htext.symm
      rfl
  | cons c text ih =>
    rw [cut]
    constructor
    · intro h
      split at h
      · rename_i hoffset
        cases h
        exact ⟨rfl, hoffset.symm⟩
      · split at h
        · cases h
        · rename_i hwide
          obtain ⟨⟨before, after⟩, hcut, heq⟩ := Option.map_eq_some_iff.mp h
          cases heq
          obtain ⟨htext, hwidth⟩ := ih.mp hcut
          refine ⟨by rw [htext, List.cons_append], ?_⟩
          rw [width_cons, hwidth]
          omega
    · rintro ⟨htext, rfl⟩
      cases front with
      | nil => exact (if_pos rfl).trans (congrArg (fun rest => some ([], rest)) htext)
      | cons c' front =>
        cases htext
        have hpos := c.utf8Size_pos
        rw [width_cons, if_neg (by omega), if_neg (by omega), Nat.add_sub_cancel_left,
          ih.mpr ⟨rfl, rfl⟩]
        rfl

/-- What stands behind an offset. -/
theorem sliceFrom_eq_some_iff {offset : Nat} {text rest : List Char} :
    sliceFrom offset text = some rest ↔ ∃ front, text = front ++ rest ∧ width front = offset := by
  rw [sliceFrom, Option.map_eq_some_iff]
  constructor
  · rintro ⟨⟨front, rest⟩, hcut, rfl⟩
    exact ⟨front, cut_eq_some_iff.mp hcut⟩
  · rintro ⟨front, htext⟩
    exact ⟨(front, rest), cut_eq_some_iff.mpr htext, rfl⟩

/-- A character behind an offset takes room that the text has. -/
theorem add_utf8Size_le_width {offset : Nat} {text rest : List Char} {c : Char}
    (h : sliceFrom offset text = some (c :: rest)) : offset + c.utf8Size ≤ width text := by
  obtain ⟨front, rfl, rfl⟩ := sliceFrom_eq_some_iff.mp h
  rw [width_append, width_cons]
  omega

/-! ## Operations -/

/-- What moves the cursor, which is given as an offset, and has a result. -/
abbrev Move := StateT Nat Option

section

variable (text : List Char)

/-- What stands behind the cursor. -/
def remaining : Move (List Char) := do
  sliceFrom (← get) text

/-- The character behind the cursor. -/
def peek : Move (Option Char) := do
  return (← remaining text).head?

/-- Steps over a character. -/
def advance : Move (Option Char) := do
  match ← peek text with
  | none => return none
  | some c =>
    modify (· + c.utf8Size)
    return some c

/-- The offset that is reached when blanks are stepped over one by one. -/
def blanksEnd (offset : Nat) : Option Nat :=
  match _h : sliceFrom offset text with
  | none => none
  | some [] => some offset
  | some (c :: _) => if isBlank c then blanksEnd (offset + c.utf8Size) else some offset
termination_by width text - offset
decreasing_by
  have := add_utf8Size_le_width _h
  have := c.utf8Size_pos
  omega

/-- Steps over blanks. -/
def skipBlanks : Move Unit := do
  set (← blanksEnd text (← get))

/-- Steps over a word if it stands behind the cursor. -/
def consumeExact (word : List Char) : Move Bool := do
  if word.isPrefixOf (← remaining text) then
    modify (· + width word)
    return true
  else
    return false

/-- Steps over a character if it stands behind the cursor. -/
def consumeChar (expected : Char) : Move Bool := do
  if (← peek text) = some expected then
    let _ ← advance text
    return true
  else
    return false

/-- Reads up to the first character that satisfies `stop`, which is left in place. -/
def takeUntil (stop : Char → Bool) : Move (Option (List Char)) := do
  let rest ← remaining text
  match find stop rest with
  | none => return none
  | some size =>
    modify (· + size)
    return some (← sliceTo size rest)

/-- Reads as long as the characters satisfy `accept`. -/
def takeWhile (accept : Char → Bool) : Move (List Char) := do
  let rest ← remaining text
  let size := (find (fun c => !accept c) rest).getD (width rest)
  modify (· + size)
  sliceTo size rest

/-- Reads `( arguments )`, where the arguments run to the first closing parenthesis. -/
def parenthesized : Move (Option (List Char)) := do
  let start ← get
  skipBlanks text
  if ← consumeChar text '(' then
    match ← takeUntil text (· == ')') with
    | some arguments =>
      let _ ← advance text
      return some arguments
    | none =>
      set start
      return none
  else
    set start
    return none

/-- Reads a quoted text, which is not empty and holds no quote; either quote may open and close. -/
def quoted : Move (Option (List Char)) := do
  let start ← get
  if (← peek text).any isQuote then
    let _ ← advance text
    match ← takeUntil text isQuote with
    | some content =>
      if content.isEmpty then
        set start
        return none
      else
        let _ ← advance text
        return some content
    | none =>
      set start
      return none
  else
    return none

/-- Reads some digits. Where there are none the cursor has not moved. -/
def digits : Move (Option (List Char)) := do
  let found ← takeWhile text Char.isDigit
  if found.isEmpty then return none else return some found

end

/-- Puts the cursor back when an operation fails, wherever this has left it. -/
def attempt {α : Type} (op : Move (Option α)) : Move (Option α) := do
  let start ← get
  let result ← op
  if result.isNone then
    set start
    return none
  else
    return result

section

variable (text : List Char)

/-- Reads `word ( argument )`, with blanks allowed between the parts. A failure leaves the cursor
behind the last part that was there. -/
def callParts (word : List Char) (argument : Move (Option (List Char))) :
    Move (Option (List Char)) := do
  if ← consumeExact text word then
    skipBlanks text
    if ← consumeChar text '(' then
      skipBlanks text
      match ← argument with
      | some found =>
        skipBlanks text
        if ← consumeChar text ')' then return some found else return none
      | none => return none
    else
      return none
  else
    return none

/-- Reads `word ( "text" )`, with blanks allowed between the parts. -/
def quotedCall (word : List Char) : Move (Option (List Char)) :=
  attempt (callParts text word (quoted text))

/-- Reads `word ( digits )`, with blanks allowed between the parts. -/
def integerCall (word : List Char) : Move (Option (List Char)) :=
  attempt (callParts text word (digits text))

end

end TradingRules.Cursor
