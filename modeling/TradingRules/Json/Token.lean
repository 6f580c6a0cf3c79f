/-
# The tokens of a JSON text

A text is cut into tokens up to its end or up to the first break. Strings are first read as pieces,
characters and 16-bit units from escapes; the pieces denote a text when every surrogate is paired.
-/
import TradingRules.Json.Numeral
import TradingRules.Text.Scan

namespace TradingRules.Json

open TradingRules.Text

/-- What a JSON text consists of. -/
inductive Token where
  | openArray
  | closeArray
  | openObject
  | closeObject
  | comma
  | colon
  | null
  | bool (b : Bool)
  | number (n : Numeral)
  /-- A string; it denotes no text if it holds a surrogate without its partner. -/
  | string (text : Option String)
  /-- A string that breaks off. -/
  | brokenString (b : Break)
  /-- Anything else that breaks off, or an unexpected character. -/
  | broken (b : Break)
deriving DecidableEq, Repr

/-! ## Strings -/

/-- A piece of a string: a character, or a 16-bit unit given by its number. -/
inductive Piece where
  | char (c : Char)
  | unit (n : Nat)
deriving DecidableEq, Repr

/-- How the pieces of a string end. -/
inductive StringEnd where
  | closed (rest : List Char)
  | broken (error : ReadError)
deriving DecidableEq, Repr

/-- The value of a digit in base sixteen. -/
def hexValue (c : Char) : Option Nat :=
  if '0' ≤ c ∧ c ≤ '9' then some (c.toNat - '0'.toNat)
  else if 'a' ≤ c ∧ c ≤ 'f' then some (c.toNat - 'a'.toNat + 10)
  else if 'A' ≤ c ∧ c ≤ 'F' then some (c.toNat - 'A'.toNat + 10)
  else none

/-- The unit that four digits in base sixteen stand for. -/
def hexUnit (a b c d : Char) : Option Nat := do
  let a ← hexValue a
  let b ← hexValue b
  let c ← hexValue c
  let d ← hexValue d
  return ((a * 16 + b) * 16 + c) * 16 + d

/-- The character that an escape of two characters stands for. -/
def unescape (c : Char) : Option Char :=
  if c = '"' ∨ c = '\\' ∨ c = '/' then some c
  else if c = 'b' then some '\x08'
  else if c = 'f' then some '\x0c'
  else if c = 'n' then some '\n'
  else if c = 'r' then some '\r'
  else if c = 't' then some '\t'
  else none

/-- The number of bytes of a text in UTF-8. -/
def byteSize (text : List Char) : Nat :=
  text.foldl (fun size c => size + c.utf8Size) 0

/-- Puts a piece in front of what has been read. -/
def StringEnd.cons (piece : Piece) (read : List Piece × StringEnd) : List Piece × StringEnd :=
  (piece :: read.1, read.2)

/-- Reads what follows the `u` of an escape: four digits in base sixteen, for which at least four
bytes must be there. -/
def scanUnit : List Char → Except ReadError (Piece × List Char)
  | a :: b :: c :: d :: rest =>
    match hexUnit a b c d with
    | some n => .ok (.unit n, rest)
    | none => .error .malformed
  | short => .error (if byteSize short < 4 then .unexpectedEnd else .malformed)

/-- Reads what follows the backslash of an escape. -/
def scanEscape : List Char → Except ReadError (Piece × List Char)
  | [] => .error .unexpectedEnd
  | e :: rest =>
    if e = 'u' then scanUnit rest
    else
      match unescape e with
      | some c => .ok (.char c, rest)
      | none => .error .malformed

theorem length_scanUnit_le {text rest : List Char} {piece : Piece}
    (h : scanUnit text = .ok (piece, rest)) : rest.length ≤ text.length := by
  unfold scanUnit at h
  split at h
  · split at h
    · simp only [Except.ok.injEq, Prod.mk.injEq] at h
      rw [← h.2]; simp only [List.length_cons]; omega
    · cases h
  · cases h

theorem length_scanEscape_lt {text rest : List Char} {piece : Piece}
    (h : scanEscape text = .ok (piece, rest)) : rest.length < text.length := by
  cases text with
  | nil => cases h
  | cons e tail =>
    simp only [scanEscape] at h
    split at h
    · have := length_scanUnit_le h
      rw [List.length_cons]; omega
    · split at h
      · simp only [Except.ok.injEq, Prod.mk.injEq] at h
        rw [← h.2, List.length_cons]; omega
      · cases h

/-- Reads a string behind its opening quote. -/
def scanString : List Char → List Piece × StringEnd
  | [] => ([], .broken .unexpectedEnd)
  | c :: rest =>
    if c = '"' then ([], .closed rest)
    else if c = '\\' then
      match _h : scanEscape rest with
      | .ok (piece, after) => StringEnd.cons piece (scanString after)
      | .error e => ([], .broken e)
    else if c.toNat < 0x20 then ([], .broken .malformed)
    else StringEnd.cons (.char c) (scanString rest)
termination_by text => text.length
decreasing_by
  · have := length_scanEscape_lt _h
    rw [List.length_cons]; omega
  · rw [List.length_cons]; omega

/-- Whether a unit is the first half of a pair. -/
def isHighSurrogate (n : Nat) : Bool := 0xD800 ≤ n && n ≤ 0xDBFF

/-- Whether a unit is the second half of a pair. -/
def isLowSurrogate (n : Nat) : Bool := 0xDC00 ≤ n && n ≤ 0xDFFF

/-- The character that a pair of units stands for. -/
def pairChar (high low : Nat) : Char :=
  Char.ofNat (0x10000 + (high - 0xD800) * 0x400 + (low - 0xDC00))

/-- The text that pieces denote; none if a surrogate lacks its partner. -/
def joinPieces : List Piece → Option (List Char)
  | [] => some []
  | .char c :: rest => (joinPieces rest).map (c :: ·)
  | .unit high :: .unit low :: rest =>
    if isHighSurrogate high then
      if isLowSurrogate low then (joinPieces rest).map (pairChar high low :: ·) else none
    else if isLowSurrogate high then none
    else (joinPieces (.unit low :: rest)).map (Char.ofNat high :: ·)
  | .unit n :: rest =>
    if isHighSurrogate n || isLowSurrogate n then none
    else (joinPieces rest).map (Char.ofNat n :: ·)

/-- The pieces without a first half of a pair at the end, which may still find its partner. -/
def settledPieces (pieces : List Piece) : List Piece :=
  match pieces.getLast? with
  | some (.unit n) => if isHighSurrogate n then pieces.dropLast else pieces
  | _ => pieces

/-- The break of a string that breaks off behind the given pieces: a reader who wants the text stops
already at a surrogate without its partner. -/
def stringBreak (pieces : List Piece) (error : ReadError) : Break where
  read := if (joinPieces (settledPieces pieces)).isNone then .malformed else error
  skip := error

/-! ## The text as a whole -/

/-- Whether a character may stand between tokens. -/
def isJsonBlank (c : Char) : Bool :=
  c == ' ' || c == '\n' || c == '\t' || c == '\r'

/-- Reads the rest of a word. -/
def scanWord : List Char → List Char → Except ReadError (List Char)
  | [], text => .ok text
  | _ :: _, [] => .error .unexpectedEnd
  | expected :: word, c :: rest => if c = expected then scanWord word rest else .error .malformed

/-- Reads the rest of a word that is a token. -/
def scanName (token : Token) (word rest : List Char) : Token × List Char :=
  match scanWord word rest with
  | .ok after => (token, after)
  | .error e => (.broken (.same e), [])

/-- Reads a string token behind its opening quote. -/
def scanText (rest : List Char) : Token × List Char :=
  match scanString rest with
  | (pieces, .closed after) => (.string ((joinPieces pieces).map String.ofList), after)
  | (pieces, .broken e) => (.brokenString (stringBreak pieces e), [])

/-- Reads a number token with its first character. -/
def scanNumber (text : List Char) : Token × List Char :=
  match scanNumeral text with
  | .ok (n, after) => (.number n, after)
  | .error b => (.broken b, [])

/-- Reads one token that begins with the given character, and gives what follows it; a break is
followed by nothing. -/
def scanToken (c : Char) (rest : List Char) : Token × List Char :=
  if c = '[' then (.openArray, rest)
  else if c = ']' then (.closeArray, rest)
  else if c = '\x7b' then (.openObject, rest)
  else if c = '\x7d' then (.closeObject, rest)
  else if c = ',' then (.comma, rest)
  else if c = ':' then (.colon, rest)
  else if c = '"' then scanText rest
  else if c = '-' ∨ c.isDigit then scanNumber (c :: rest)
  else if c = 'n' then scanName .null "ull".toList rest
  else if c = 't' then scanName (.bool true) "rue".toList rest
  else if c = 'f' then scanName (.bool false) "alse".toList rest
  else (.broken (.same .malformed), [])

/-! ### A token takes its share of the text -/

theorem length_scanWord_le {word text rest : List Char} (h : scanWord word text = .ok rest) :
    rest.length ≤ text.length := by
  induction word generalizing text with
  | nil => simp only [scanWord, Except.ok.injEq] at h; simp [h]
  | cons w word ih =>
    cases text with
    | nil => simp [scanWord] at h
    | cons c text =>
      simp only [scanWord] at h
      split at h
      · have := ih h; simp; omega
      · simp at h

theorem length_scanString_le {text rest : List Char} (h : (scanString text).2 = .closed rest) :
    rest.length ≤ text.length := by
  fun_induction scanString text with
  | case1 => cases h
  | case2 => cases h; exact Nat.le_succ _
  | case3 tail piece after he _ ih =>
    have := length_scanEscape_lt he
    have := ih h
    rw [List.length_cons]; omega
  | case4 => cases h
  | case5 => cases h
  | case6 c tail _ _ _ ih =>
    have := ih h
    rw [List.length_cons]; omega

theorem length_scanName_le (token : Token) (word rest : List Char) :
    (scanName token word rest).2.length ≤ rest.length := by
  unfold scanName
  split
  · exact length_scanWord_le ‹_›
  · simp

theorem length_scanText_le (rest : List Char) : (scanText rest).2.length ≤ rest.length := by
  unfold scanText
  split
  · rename_i h
    exact length_scanString_le (congrArg Prod.snd h)
  · simp

theorem length_scanNumber_le (c : Char) (rest : List Char) :
    (scanNumber (c :: rest)).2.length ≤ rest.length := by
  unfold scanNumber
  split
  · exact Nat.lt_succ_iff.mp (length_scanNumeral_lt ‹_›)
  · simp

theorem length_ite_le {p : Prop} [Decidable p] {a b : Token × List Char} {n : Nat}
    (ha : a.2.length ≤ n) (hb : b.2.length ≤ n) : (if p then a else b).2.length ≤ n := by
  split <;> assumption

theorem length_scanToken_le (c : Char) (rest : List Char) :
    (scanToken c rest).2.length ≤ rest.length := by
  unfold scanToken
  repeat' apply length_ite_le
  all_goals first
    | exact Nat.le_refl _
    | exact Nat.zero_le _
    | exact length_scanText_le _
    | exact length_scanNumber_le _ _
    | exact length_scanName_le _ _ _

/-- The tokens of a text, up to the first break. -/
def tokens (text : List Char) : List Token :=
  match text with
  | [] => []
  | c :: rest =>
    if isJsonBlank c then tokens rest
    else (scanToken c rest).1 :: tokens (scanToken c rest).2
termination_by text.length
decreasing_by
  · simp
  · have := length_scanToken_le c rest
    simp only [List.length_cons]; omega

end TradingRules.Json
