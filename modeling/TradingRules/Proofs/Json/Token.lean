/-
# The tokens of what is written

What a writer puts in front of a text is cut off again as a token: a string with all its escapes as
the string that was written, a number as its numeral, a word and a mark as themselves. What is put
between tokens leaves no trace.
-/
import TradingRules.Json.Token
import TradingRules.Proofs.Json.Numeral

namespace TradingRules.Json

/-! ## Strings -/

/-- The piece that a character is read as behind its escaping: control characters without an escape
of their own become units. -/
def writtenPiece (c : Char) : Piece :=
  if c = '\x08' ∨ c = '\t' ∨ c = '\n' ∨ c = '\x0c' ∨ c = '\r' then .char c
  else if c.toNat < 0x20 then .unit c.toNat
  else .char c

/-- A piece that an escape stands for. -/
theorem scanString_backslash {text rest : List Char} {piece : Piece}
    (h : scanEscape text = .ok (piece, rest)) :
    scanString ('\\' :: text) = StringEnd.cons piece (scanString rest) := by
  rw [scanString, if_neg (by decide), if_pos rfl]
  split
  · rename_i heq
    rw [h] at heq
    cases heq
    rfl
  · rename_i heq
    rw [h] at heq
    cases heq

/-- A piece that stands for itself. -/
theorem scanString_plain {c : Char} (hquote : c ≠ '"') (hbackslash : c ≠ '\\')
    (hcontrol : ¬ c.toNat < 0x20) (rest : List Char) :
    scanString (c :: rest) = StringEnd.cons (.char c) (scanString rest) := by
  rw [scanString, if_neg hquote, if_neg hbackslash, if_neg hcontrol]

/-- The four digits of a control character give it back. -/
theorem hexUnit_control {n : Nat} (h : n < 0x20) :
    hexUnit '0' '0' (hexDigit (n / 16)) (hexDigit n) = some n := by
  have hall : ∀ n < 0x20, hexUnit '0' '0' (hexDigit (n / 16)) (hexDigit n) = some n := by decide
  exact hall n h

/-- A character is read as its piece. -/
theorem scanString_escape_append (c : Char) (rest : List Char) :
    scanString (escape c ++ rest) = StringEnd.cons (writtenPiece c) (scanString rest) := by
  by_cases hquote : c = '"'
  · subst hquote
    exact scanString_backslash rfl
  by_cases hbackslash : c = '\\'
  · subst hbackslash
    exact scanString_backslash rfl
  by_cases hshort : c = '\x08' ∨ c = '\t' ∨ c = '\n' ∨ c = '\x0c' ∨ c = '\r'
  · rcases hshort with rfl | rfl | rfl | rfl | rfl <;> exact scanString_backslash rfl
  rw [writtenPiece, if_neg hshort]
  simp only [not_or] at hshort
  obtain ⟨hb, ht, hn, hf, hr⟩ := hshort
  rw [escape, if_neg hquote, if_neg hbackslash, if_neg hb, if_neg ht, if_neg hn, if_neg hf,
    if_neg hr]
  split
  · rename_i hcontrol
    refine scanString_backslash ?_
    show scanUnit ('0' :: '0' :: hexDigit (c.toNat / 16) :: hexDigit c.toNat :: rest) = _
    rw [scanUnit, hexUnit_control hcontrol]
  · rename_i hcontrol
    exact scanString_plain hquote hbackslash hcontrol rest

/-- The characters of a string are read as their pieces, up to the closing quote. -/
theorem scanString_writeChars (cs after : List Char) :
    scanString (writeChars cs ('"' :: after)) = (cs.map writtenPiece, .closed after) := by
  induction cs with
  | nil =>
    show scanString ('"' :: after) = ([], .closed after)
    rw [scanString, if_pos rfl]
  | cons c cs ih =>
    rw [writeChars, scanString_escape_append, ih]
    rfl

/-- A unit that is half of no pair denotes its character. -/
theorem joinPieces_unit {n : Nat} (h : n < 0xD800) (pieces : List Piece) :
    joinPieces (.unit n :: pieces) = (joinPieces pieces).map (Char.ofNat n :: ·) := by
  have hhigh : isHighSurrogate n = false := by
    simp only [isHighSurrogate, Bool.and_eq_false_iff, decide_eq_false_iff_not]
    omega
  have hlow : isLowSurrogate n = false := by
    simp only [isLowSurrogate, Bool.and_eq_false_iff, decide_eq_false_iff_not]
    omega
  cases pieces with
  | nil => simp [joinPieces, hhigh, hlow]
  | cons piece pieces => cases piece <;> simp [joinPieces, hhigh, hlow]

/-- A piece denotes the character that was written. -/
theorem joinPieces_writtenPiece (c : Char) (pieces : List Piece) :
    joinPieces (writtenPiece c :: pieces) = (joinPieces pieces).map (c :: ·) := by
  unfold writtenPiece
  split
  · rw [joinPieces]
  split
  · rename_i hcontrol
    rw [joinPieces_unit (Nat.lt_trans hcontrol (by decide)), Char.ofNat_toNat]
  · rw [joinPieces]

/-- The pieces of a string denote it. -/
theorem joinPieces_map_writtenPiece (cs : List Char) :
    joinPieces (cs.map writtenPiece) = some cs := by
  induction cs with
  | nil => rw [List.map_nil, joinPieces]
  | cons c cs ih => rw [List.map_cons, joinPieces_writtenPiece, ih, Option.map_some]

/-! ## One token after the other -/

/-- What may stand between tokens is passed over. -/
theorem tokens_blank {c : Char} (h : isJsonBlank c = true) (rest : List Char) :
    tokens (c :: rest) = tokens rest := by
  rw [tokens, if_pos h]

theorem tokens_cons {c : Char} (h : isJsonBlank c = false) (rest : List Char) :
    tokens (c :: rest) = (scanToken c rest).1 :: tokens (scanToken c rest).2 := by
  rw [tokens, if_neg (Bool.eq_false_iff.mp h)]

/-- The start of a line is passed over. -/
theorem tokens_newLine (level : Nat) (after : List Char) :
    tokens (newLine level after) = tokens after := by
  have hspaces : ∀ n, tokens (List.replicate n ' ' ++ after) = tokens after := by
    intro n
    induction n with
    | zero => rfl
    | succ n ih => rw [List.replicate_succ, List.cons_append, tokens_blank rfl, ih]
  rw [newLine, tokens_blank rfl, hspaces]

/-- The rest of a word is taken. -/
theorem scanWord_append (word after : List Char) : scanWord word (word ++ after) = .ok after := by
  induction word with
  | nil => rfl
  | cons c word ih => rw [List.cons_append, scanWord, if_pos rfl, ih]

/-- A word is a token. -/
theorem tokens_word {token : Token} {c : Char} {word : List Char} (hblank : isJsonBlank c = false)
    (hscan : ∀ rest, scanToken c rest = scanName token word rest) (after : List Char) :
    tokens (c :: (word ++ after)) = token :: tokens after := by
  rw [tokens_cons hblank, hscan, scanName, scanWord_append]

theorem tokens_null (after : List Char) :
    tokens ("null".toList ++ after) = .null :: tokens after :=
  tokens_word rfl (fun _ => rfl) after

theorem tokens_true (after : List Char) :
    tokens ("true".toList ++ after) = .bool true :: tokens after :=
  tokens_word rfl (fun _ => rfl) after

theorem tokens_false (after : List Char) :
    tokens ("false".toList ++ after) = .bool false :: tokens after :=
  tokens_word rfl (fun _ => rfl) after

/-- A string is a token. -/
theorem tokens_writeString (s : String) (after : List Char) :
    tokens (writeString s after) = .string (some s) :: tokens after := by
  have hscan : scanToken '"' (writeChars s.toList ('"' :: after)) = (.string (some s), after) := by
    show scanText _ = _
    rw [scanText, scanString_writeChars]
    simp only [joinPieces_map_writtenPiece, Option.map_some, String.ofList_toList]
  rw [writeString, tokens_cons rfl, hscan]

/-- A number begins with a sign or a digit. -/
theorem head_number (n : Number) : ∃ c rest, n.text = c :: rest ∧ (c = '-' ∨ c.isDigit) := by
  have hwell := n.wellFormed_numeral
  obtain ⟨c, tail, hwhole⟩ := List.exists_cons_of_ne_nil hwell.whole_ne_nil
  rw [← n.text_numeral]
  unfold Numeral.text
  by_cases hsign : n.numeral.negative = true
  · rw [if_pos hsign]
    exact ⟨'-', _, rfl, Or.inl rfl⟩
  · rw [if_neg hsign, hwhole]
    exact ⟨c, _, rfl, Or.inr (hwell.whole_digits c (hwhole ▸ List.mem_cons_self))⟩

/-- A number is scanned as one. -/
theorem scanToken_of_number {c : Char} (h : c = '-' ∨ c.isDigit) (rest : List Char) :
    isJsonBlank c = false ∧ scanToken c rest = scanNumber (c :: rest) := by
  have hne : ∀ mark : Char, mark ≠ '-' → mark.isDigit = false → c ≠ mark := by
    rintro mark hminus hdigit rfl
    rcases h with h | h
    · exact hminus h
    · rw [hdigit] at h
      cases h
  constructor
  · simp only [isJsonBlank, Bool.or_eq_false_iff, beq_eq_false_iff_ne]
    exact ⟨⟨⟨hne _ (by decide) rfl, hne _ (by decide) rfl⟩, hne _ (by decide) rfl⟩,
      hne _ (by decide) rfl⟩
  · rw [scanToken, if_neg (hne _ (by decide) rfl), if_neg (hne _ (by decide) rfl),
      if_neg (hne _ (by decide) rfl), if_neg (hne _ (by decide) rfl),
      if_neg (hne _ (by decide) rfl), if_neg (hne _ (by decide) rfl),
      if_neg (hne _ (by decide) rfl), if_pos h]

/-- A number is a token, if what follows does not go on with it. -/
theorem tokens_number (n : Number) {after : List Char} (h : EndsNumeral after) :
    tokens (n.text ++ after) = .number n.numeral :: tokens after := by
  obtain ⟨c, rest, htext, hc⟩ := head_number n
  obtain ⟨hblank, hscan⟩ := scanToken_of_number hc (rest ++ after)
  have hnumeral := scanNumeral_text_append n.wellFormed_numeral h
  rw [n.text_numeral, htext, List.cons_append] at hnumeral
  rw [htext, List.cons_append, tokens_cons hblank, hscan, scanNumber, hnumeral]

end TradingRules.Json
