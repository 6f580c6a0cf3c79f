/-
# Where the cursor stands

A cut aborts exactly where it is not made at a character boundary, and at a boundary a list of
characters stands behind the cursor. The single steps of the cursor do there what the readers of
lists do with this list.
-/
import TradingRules.Cursor.Basic
import TradingRules.Proofs.Text.Scan

namespace TradingRules.Cursor

open TradingRules.Text

variable {text rest after taken : List Char} {offset : Nat}

/-! ## Boundaries -/

/-- What is behind a front tells how much is in front. -/
theorem width_append_sub (front back : List Char) :
    width (front ++ back) - width back = width front := by
  rw [width_append, Nat.add_sub_cancel]

/-- The width is the number of bytes of the UTF-8 encoding. -/
theorem utf8ByteSize_ofList (text : List Char) : (String.ofList text).utf8ByteSize = width text := by
  induction text with
  | nil => rfl
  | cons c text ih => simp [String.ofList_cons, ih]

/-- Whether an offset is a character boundary of the UTF-8 encoding of a text. -/
def IsBoundary (text : List Char) (offset : Nat) : Prop :=
  String.Pos.Raw.IsValid (String.ofList text) ⟨offset⟩

/-- The boundaries are the ends of the fronts of a text. -/
theorem isBoundary_iff :
    IsBoundary text offset ↔ ∃ front rest, text = front ++ rest ∧ width front = offset := by
  rw [IsBoundary, String.Pos.Raw.isValid_ofList]
  constructor
  · rintro ⟨i, hi⟩
    rw [utf8ByteSize_ofList] at hi
    exact ⟨text.take i, text.drop i, (List.take_append_drop i text).symm, hi.symm⟩
  · rintro ⟨front, rest, rfl, rfl⟩
    refine ⟨front.length, ?_⟩
    rw [utf8ByteSize_ofList, List.take_left]

/-- A cut is possible exactly at a boundary. -/
theorem isSome_cut_iff : (cut offset text).isSome = true ↔ IsBoundary text offset := by
  rw [isBoundary_iff, Option.isSome_iff_exists, Prod.exists]
  simp only [cut_eq_some_iff]

example : cut 1 "é".toList = none := by decide

/-! ## What stands behind the cursor -/

/-- The cursor stands at a boundary, in front of the given characters. -/
def At (text : List Char) (offset : Nat) (rest : List Char) : Prop :=
  ∃ front, text = front ++ rest ∧ width front = offset

theorem at_zero (text : List Char) : At text 0 text :=
  ⟨[], rfl, rfl⟩

theorem sliceFrom_eq_some_iff_at : sliceFrom offset text = some rest ↔ At text offset rest :=
  sliceFrom_eq_some_iff

/-- Behind what has been read the cursor stands in front of what follows. -/
theorem At.append (h : At text offset (taken ++ after)) : At text (offset + width taken) after := by
  obtain ⟨front, rfl, rfl⟩ := h
  exact ⟨front ++ taken, (List.append_assoc _ _ _).symm, width_append _ _⟩

theorem At.tail {c : Char} (h : At text offset (c :: after)) : At text (offset + c.utf8Size) after := by
  have hone : At text offset ([c] ++ after) := h
  exact hone.append

/-- What stands behind a place determines how many bytes stand in front of it. -/
theorem At.add_width (h : At text offset rest) : offset + width rest = width text := by
  obtain ⟨front, rfl, rfl⟩ := h
  exact (width_append front rest).symm

theorem At.le_width (h : At text offset rest) : offset ≤ width text := by
  have := h.add_width
  omega

/-- The place in front of the end of what follows another place is not before that. -/
theorem At.le_of_append {next : Nat} (hnext : At text next after)
    (h : At text offset (taken ++ after)) : offset ≤ next := by
  have hnext := hnext.add_width
  have h := h.add_width
  rw [width_append] at h
  omega

theorem At.isBoundary (h : At text offset rest) : IsBoundary text offset := by
  obtain ⟨front, htext⟩ := h
  exact isBoundary_iff.mpr ⟨front, rest, htext⟩

theorem exists_at (h : IsBoundary text offset) : ∃ rest, At text offset rest := by
  obtain ⟨front, rest, htext⟩ := isBoundary_iff.mp h
  exact ⟨rest, front, htext⟩

/-! ## Single steps -/

/-- A computation goes on where its first step has stopped. -/
theorem bind_apply {α β : Type} {op : Move α} {next : α → Move β} {found : α} {between : Nat}
    (h : op offset = some (found, between)) : (op >>= next) offset = next found between := by
  show (op offset).bind (fun (found, between) => next found between) = _
  rw [h, Option.bind_some]

theorem get_bind {β : Type} (next : Nat → Move β) (offset : Nat) :
    (get >>= next) offset = next offset offset := rfl

/-- A slice that does not abort leaves the cursor where it is. -/
theorem lift_apply {α : Type} {slice : Option α} {found : α} (h : slice = some found) (offset : Nat) :
    (liftM slice : Move α) offset = some (found, offset) := by
  rw [h]
  rfl

theorem modify_apply (size offset : Nat) :
    (modify (· + size) : Move PUnit) offset = some (⟨⟩, offset + size) := rfl

theorem remaining_of_at (h : At text offset rest) : remaining text offset = some (rest, offset) := by
  rw [remaining, get_bind, sliceFrom_eq_some_iff_at.mpr h]
  rfl

theorem peek_of_at (h : At text offset rest) : peek text offset = some (rest.head?, offset) := by
  rw [peek, bind_apply (remaining_of_at h)]
  rfl

theorem advance_of_at {c : Char} (h : At text offset (c :: after)) :
    advance text offset = some (some c, offset + c.utf8Size) := by
  rw [advance, bind_apply (peek_of_at h)]
  rfl

theorem blanksEnd_of_nil (h : At text offset []) : blanksEnd text offset = some offset := by
  have hslice := sliceFrom_eq_some_iff_at.mpr h
  rw [blanksEnd]
  split
  · simp_all
  · rfl
  · simp_all

theorem blanksEnd_of_cons {c : Char} (h : At text offset (c :: after)) :
    blanksEnd text offset =
      if isBlank c then blanksEnd text (offset + c.utf8Size) else some offset := by
  have hslice := sliceFrom_eq_some_iff_at.mpr h
  rw [blanksEnd]
  split
  · simp_all
  · simp_all
  · rename_i c' _ hslice'
    rw [hslice] at hslice'
    cases hslice'
    rfl

/-- The blanks behind the cursor are stepped over. -/
theorem blanksEnd_of_at (h : At text offset rest) :
    ∃ next, blanksEnd text offset = some next ∧ At text next (trimStart rest) := by
  induction rest generalizing offset with
  | nil => exact ⟨offset, blanksEnd_of_nil h, h⟩
  | cons c rest ih =>
    rw [blanksEnd_of_cons h, trimStart, List.dropWhile_cons]
    split
    · exact ih h.tail
    · exact ⟨offset, rfl, h⟩

theorem skipBlanks_of_at (h : At text offset rest) :
    ∃ next, skipBlanks text offset = some ((), next) ∧ At text next (trimStart rest) := by
  obtain ⟨next, hend, hnext⟩ := blanksEnd_of_at h
  refine ⟨next, ?_, hnext⟩
  rw [skipBlanks, get_bind, bind_apply (lift_apply hend offset)]
  rfl

/-- A word is stepped over when the scanner can read it. -/
theorem consumeExact_of_some {word : List Char} (h : At text offset rest)
    (hread : afterWord word rest = some after) :
    consumeExact text word offset = some (true, offset + width word) ∧
      At text (offset + width word) after := by
  obtain rfl := afterWord_eq_some_iff.mp hread
  constructor
  · rw [consumeExact, bind_apply (remaining_of_at h), if_pos]
    · rfl
    · rw [List.isPrefixOf_iff_prefix]
      exact List.prefix_append word after
  · exact h.append

theorem consumeExact_of_none {word : List Char} (h : At text offset rest)
    (hread : afterWord word rest = none) : consumeExact text word offset = some (false, offset) := by
  rw [consumeExact, bind_apply (remaining_of_at h), if_neg]
  · rfl
  · intro hprefix
    rw [afterWord, if_pos hprefix] at hread
    cases hread

/-- A character is stepped over when the scanner can read it. -/
theorem consumeChar_of_some {expected : Char} (h : At text offset rest)
    (hread : afterChar expected rest = some after) :
    consumeChar text expected offset = some (true, offset + expected.utf8Size) ∧
      At text (offset + expected.utf8Size) after := by
  obtain rfl := afterChar_eq_some_iff.mp hread
  constructor
  · rw [consumeChar, bind_apply (peek_of_at h), List.head?_cons, if_pos rfl,
      bind_apply (advance_of_at h)]
    rfl
  · exact h.tail

theorem consumeChar_of_none {expected : Char} (h : At text offset rest)
    (hread : afterChar expected rest = none) :
    consumeChar text expected offset = some (false, offset) := by
  rw [consumeChar, bind_apply (peek_of_at h), if_neg]
  · rfl
  · intro hhead
    obtain ⟨after, rfl⟩ := List.head?_eq_some_iff.mp hhead
    rw [afterChar, if_pos rfl] at hread
    cases hread

/-! ## Reading up to a stop -/

theorem sliceTo_of_append_eq (h : taken ++ after = rest) :
    sliceTo (width taken) rest = some taken := by
  rw [sliceTo, cut_eq_some_iff.mpr ⟨h.symm, rfl⟩]
  rfl

theorem sliceFrom_of_append_eq (h : taken ++ after = rest) :
    sliceFrom (width taken) rest = some after :=
  sliceFrom_eq_some_iff.mpr ⟨taken, h.symm, rfl⟩

/-- The first stop is as many bytes away as what is read up to it takes. -/
theorem find_eq_map_takeUntil (stop : Char → Bool) (rest : List Char) :
    find stop rest = (Text.takeUntil stop rest).map fun (taken, _) => width taken := by
  induction rest with
  | nil => rfl
  | cons c rest ih =>
    rw [find, Text.takeUntil]
    split
    · rfl
    · rw [ih, Option.map_map, Option.map_map]
      rfl

/-- Where the characters cease to satisfy a test, or else the end. -/
theorem find_not_getD (accept : Char → Bool) (rest : List Char) :
    (find (fun c => !accept c) rest).getD (width rest) = width (rest.takeWhile accept) := by
  induction rest with
  | nil => rfl
  | cons c rest ih =>
    rw [find, List.takeWhile_cons]
    cases haccept : accept c with
    | false => rfl
    | true =>
      rw [if_neg (by decide), if_pos rfl, width_cons, width_cons, ← ih]
      cases find (fun c => !accept c) rest <;> rfl

theorem takeUntil_of_some {stop : Char → Bool} (h : At text offset rest)
    (hread : Text.takeUntil stop rest = some (taken, after)) :
    takeUntil text stop offset = some (some taken, offset + width taken) ∧
      At text (offset + width taken) after := by
  have hfind : find stop rest = some (width taken) := by
    rw [find_eq_map_takeUntil, hread]
    rfl
  obtain ⟨rfl, -, -⟩ := takeUntil_eq_some_iff.mp hread
  constructor
  · rw [takeUntil, bind_apply (remaining_of_at h), hfind]
    dsimp only
    rw [bind_apply (modify_apply (width taken) offset),
      bind_apply (lift_apply (sliceTo_of_append_eq rfl) _)]
    rfl
  · exact h.append

theorem takeUntil_of_none {stop : Char → Bool} (h : At text offset rest)
    (hread : Text.takeUntil stop rest = none) : takeUntil text stop offset = some (none, offset) := by
  have hfind : find stop rest = none := by
    rw [find_eq_map_takeUntil, hread]
    rfl
  rw [takeUntil, bind_apply (remaining_of_at h), hfind]
  rfl

theorem takeWhile_of_at (accept : Char → Bool) (h : At text offset rest) :
    takeWhile text accept offset =
        some (rest.takeWhile accept, offset + width (rest.takeWhile accept)) ∧
      At text (offset + width (rest.takeWhile accept)) (rest.dropWhile accept) := by
  have hsplit : rest.takeWhile accept ++ rest.dropWhile accept = rest :=
    List.takeWhile_append_dropWhile
  constructor
  · rw [takeWhile, bind_apply (remaining_of_at h), find_not_getD,
      bind_apply (modify_apply _ offset), lift_apply (sliceTo_of_append_eq hsplit)]
  · exact At.append (hsplit.symm ▸ h)

end TradingRules.Cursor
