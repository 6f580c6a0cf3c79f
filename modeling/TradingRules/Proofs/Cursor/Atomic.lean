/-
# Operations of the cursor are atomic

Every operation does what the reader of lists does with the characters behind the cursor: it gives
what the reader gives and stops in front of what the reader leaves, or it fails with the reader.
Failing, the seven operations that read something leave the cursor where it was, be it that they
have not moved it, that they put it back, or that they are made to by `attempt`.
-/
import TradingRules.Proofs.Cursor.Basic

namespace TradingRules.Cursor

open TradingRules.Text

variable {text rest after : List Char} {offset : Nat}

/-! ## Operations that follow a reader -/

/-- An operation tells by `yes` what a reader makes of the characters behind the cursor, which then
stops in front of what the reader leaves; where the reader fails it tells `no` and has not moved. -/
def Follows {α β : Type} (text : List Char) (op : Move β) (yes : α → β) (no : β)
    (read : List Char → Option (α × List Char)) : Prop :=
  ∀ ⦃offset : Nat⦄ ⦃rest : List Char⦄, At text offset rest →
    match read rest with
    | some (found, after) => ∃ next, op offset = some (yes found, next) ∧ At text next after
    | none => op offset = some (no, offset)

theorem follows_consumeExact (word : List Char) :
    Follows text (consumeExact text word) (fun _ : Unit => true) false
      fun rest => (afterWord word rest).map ((), ·) := by
  intro offset rest h
  dsimp only
  cases hread : afterWord word rest with
  | none => exact consumeExact_of_none h hread
  | some after => exact ⟨_, consumeExact_of_some h hread⟩

theorem follows_consumeChar (expected : Char) :
    Follows text (consumeChar text expected) (fun _ : Unit => true) false
      fun rest => (afterChar expected rest).map ((), ·) := by
  intro offset rest h
  dsimp only
  cases hread : afterChar expected rest with
  | none => exact consumeChar_of_none h hread
  | some after => exact ⟨_, consumeChar_of_some h hread⟩

theorem follows_takeUntil (stop : Char → Bool) :
    Follows text (takeUntil text stop) some none (Text.takeUntil stop) := by
  intro offset rest h
  cases hread : Text.takeUntil stop rest with
  | none => exact takeUntil_of_none h hread
  | some found => exact ⟨_, takeUntil_of_some h hread⟩

/-- Arguments in parentheses; the cursor is put back if one of the two is missing. -/
theorem follows_parenthesized : Follows text (parenthesized text) some none Text.parenthesized := by
  intro offset rest h
  obtain ⟨opening, hskip, hopening⟩ := skipBlanks_of_at h
  rw [parenthesized, get_bind, bind_apply hskip, Text.parenthesized]
  cases hopen : afterChar '(' (trimStart rest) with
  | none =>
    rw [bind_apply (consumeChar_of_none hopening hopen)]
    rfl
  | some inner =>
    obtain ⟨hconsume, hinner⟩ := consumeChar_of_some hopening hopen
    rw [bind_apply hconsume, if_pos rfl, Option.bind_eq_bind, Option.bind_some]
    cases hread : Text.takeUntil (· == ')') inner with
    | none =>
      rw [bind_apply (takeUntil_of_none hinner hread)]
      rfl
    | some found =>
      obtain ⟨arguments, closing⟩ := found
      obtain ⟨htake, hclosing⟩ := takeUntil_of_some hinner hread
      obtain ⟨-, -, c, after, rfl, -⟩ := takeUntil_eq_some_iff.mp hread
      rw [bind_apply htake]
      dsimp only
      rw [bind_apply (advance_of_at hclosing)]
      exact ⟨_, rfl, hclosing.tail⟩

/-- A quoted text; the cursor is put back if it is empty or not closed. -/
theorem follows_quoted : Follows text (quoted text) some none Text.quoted := by
  intro offset rest h
  rw [quoted, get_bind, bind_apply (peek_of_at h)]
  cases rest with
  | nil => rfl
  | cons q rest =>
    rw [Text.quoted, List.head?_cons, Option.any_some]
    split_ifs with hquote
    · rw [bind_apply (advance_of_at h), Option.bind_eq_bind]
      cases hread : Text.takeUntil isQuote rest with
      | none =>
        rw [bind_apply (takeUntil_of_none h.tail hread)]
        rfl
      | some found =>
        obtain ⟨content, closing⟩ := found
        obtain ⟨htake, hclosing⟩ := takeUntil_of_some h.tail hread
        obtain ⟨-, -, c, after, rfl, -⟩ := takeUntil_eq_some_iff.mp hread
        rw [bind_apply htake, Option.bind_some]
        dsimp only
        split_ifs with hempty
        · rfl
        · rw [bind_apply (advance_of_at hclosing)]
          exact ⟨_, rfl, hclosing.tail⟩
    · rfl

/-- Digits off the front of a list, of which there must be some. -/
def leadingDigits (text : List Char) : Option (List Char × List Char) :=
  if (text.takeWhile Char.isDigit).isEmpty then none
  else some (text.takeWhile Char.isDigit, text.dropWhile Char.isDigit)

/-- Digits; where there are none the cursor stays since nothing is stepped over. -/
theorem follows_digits : Follows text (digits text) some none leadingDigits := by
  intro offset rest h
  obtain ⟨htake, hbehind⟩ := takeWhile_of_at Char.isDigit h
  rw [digits, bind_apply htake, leadingDigits]
  split_ifs with hempty
  · rw [List.isEmpty_iff.mp hempty]
    rfl
  · exact ⟨_, rfl, hbehind⟩

/-- An operation that follows a reader as long as this succeeds, but may leave the cursor anywhere
when it fails. -/
def Tries {α : Type} (text : List Char) (op : Move (Option α))
    (read : List Char → Option (α × List Char)) : Prop :=
  ∀ ⦃offset : Nat⦄ ⦃rest : List Char⦄, At text offset rest →
    match read rest with
    | some (found, after) => ∃ next, op offset = some (some found, next) ∧ At text next after
    | none => ∃ next, op offset = some (none, next)

/-- An attempt puts the cursor back. -/
theorem Tries.attempt {α : Type} {op : Move (Option α)}
    {read : List Char → Option (α × List Char)} (htries : Tries text op read) :
    Follows text (attempt op) some none read := by
  intro offset rest h
  have hop := htries h
  rw [Cursor.attempt, get_bind]
  cases hread : read rest with
  | none =>
    rw [hread] at hop
    obtain ⟨next, hfail⟩ := hop
    rw [bind_apply hfail]
    rfl
  | some found =>
    rw [hread] at hop
    obtain ⟨next, hsucceed, hnext⟩ := hop
    rw [bind_apply hsucceed]
    exact ⟨next, rfl, hnext⟩

/-- The reader of a call, whatever its argument is. -/
def readCall (word : List Char) (argument : List Char → Option (List Char × List Char))
    (text : List Char) : Option (List Char × List Char) := do
  let call ← afterWord word text
  let inner ← afterChar '(' (trimStart call)
  let (found, tail) ← argument (trimStart inner)
  let rest ← afterChar ')' (trimStart tail)
  return (found, rest)

theorem integerCall_eq_readCall (word : List Char) :
    Text.integerCall word = readCall word leadingDigits := by
  funext text
  unfold Text.integerCall readCall leadingDigits
  congr 1
  funext call
  congr 1
  funext inner
  dsimp only
  split_ifs
  · rfl
  · rfl

/-- The parts of a call are read one behind the other. -/
theorem tries_callParts {word : List Char} {op : Move (Option (List Char))}
    {argument : List Char → Option (List Char × List Char)} (hargument : Follows text op some none argument) :
    Tries text (callParts text word op) (readCall word argument) := by
  intro offset rest h
  rw [callParts, readCall]
  cases hword : afterWord word rest with
  | none =>
    rw [bind_apply (consumeExact_of_none h hword)]
    exact ⟨_, rfl⟩
  | some call =>
    obtain ⟨hconsume, hcall⟩ := consumeExact_of_some h hword
    obtain ⟨opening, hskip, hopening⟩ := skipBlanks_of_at hcall
    rw [bind_apply hconsume, if_pos rfl, bind_apply hskip, Option.bind_eq_bind, Option.bind_some]
    cases hopen : afterChar '(' (trimStart call) with
    | none =>
      rw [bind_apply (consumeChar_of_none hopening hopen)]
      exact ⟨_, rfl⟩
    | some inner =>
      obtain ⟨hconsume, hinner⟩ := consumeChar_of_some hopening hopen
      obtain ⟨start, hskip, hstart⟩ := skipBlanks_of_at hinner
      rw [bind_apply hconsume, if_pos rfl, bind_apply hskip, Option.bind_eq_bind, Option.bind_some]
      have hop := hargument hstart
      cases hread : argument (trimStart inner) with
      | none =>
        rw [hread] at hop
        rw [bind_apply hop]
        exact ⟨_, rfl⟩
      | some found =>
        obtain ⟨found, tail⟩ := found
        rw [hread] at hop
        obtain ⟨behind, hop, hbehind⟩ := hop
        obtain ⟨closing, hskip, hclosing⟩ := skipBlanks_of_at hbehind
        rw [bind_apply hop, Option.bind_some]
        dsimp only
        rw [bind_apply hskip]
        cases hclose : afterChar ')' (trimStart tail) with
        | none =>
          rw [bind_apply (consumeChar_of_none hclosing hclose)]
          exact ⟨_, rfl⟩
        | some after =>
          obtain ⟨hconsume, hafter⟩ := consumeChar_of_some hclosing hclose
          rw [bind_apply hconsume]
          exact ⟨_, rfl, hafter⟩

/-- A call that breaks off has moved the cursor, which is why it must be attempted. -/
example : callParts "sma(x)".toList "sma".toList (digits "sma(x)".toList) 0 = some (none, 4) := by
  decide +kernel

theorem follows_quotedCall (word : List Char) :
    Follows text (quotedCall text word) some none (Text.quotedCall word) :=
  (tries_callParts follows_quoted).attempt

theorem follows_integerCall (word : List Char) :
    Follows text (integerCall text word) some none (Text.integerCall word) := by
  rw [integerCall_eq_readCall]
  exact (tries_callParts follows_digits).attempt

/-! ## Atomic operations -/

/-- An operation keeps to the text: begun at a boundary it does not abort, does not move the cursor
back, and leaves it at a boundary that is not behind the end. -/
def KeepsInside {β : Type} (text : List Char) (op : Move β) : Prop :=
  ∀ offset, IsBoundary text offset →
    ∃ result next, op offset = some (result, next) ∧
      offset ≤ next ∧ next ≤ width text ∧ IsBoundary text next

/-- An operation is atomic: at any boundary it succeeds on a piece of the text that it matches and
leaves the cursor right behind it, or it fails, nothing being there that it matches, and leaves the
cursor where it was. `Matches found matched after` says that the piece `matched`, which `after`
follows, gives the result `found`. -/
structure IsAtomic {α β : Type} (text : List Char) (op : Move β) (yes : α → β) (no : β)
    (Matches : α → List Char → List Char → Prop) : Prop where
  /-- It succeeds or fails as a whole. -/
  outcome : ∀ offset, IsBoundary text offset →
    ∃ front rest, text = front ++ rest ∧ width front = offset ∧
      ((∃ found matched after, rest = matched ++ after ∧ Matches found matched after ∧
        op offset = some (yes found, offset + width matched)) ∨
      ((∀ found matched after, rest = matched ++ after → ¬ Matches found matched after) ∧
        op offset = some (no, offset)))
  /-- It keeps to the text. -/
  keepsInside : KeepsInside text op

/-- An operation that follows a reader is atomic, and matches what the reader takes. -/
theorem Follows.isAtomic {α β : Type} {op : Move β} {yes : α → β} {no : β}
    {read : List Char → Option (α × List Char)} {Matches : α → List Char → List Char → Prop}
    (hop : Follows text op yes no read)
    (hread : ∀ {rest found after}, read rest = some (found, after) ↔
      ∃ matched, rest = matched ++ after ∧ Matches found matched after) :
    IsAtomic text op yes no Matches := by
  constructor
  · intro offset hoffset
    obtain ⟨front, rest, htext, hfront⟩ := isBoundary_iff.mp hoffset
    have hrest : At text offset rest := ⟨front, htext, hfront⟩
    have hfollow := hop hrest
    refine ⟨front, rest, htext, hfront, ?_⟩
    cases hresult : read rest with
    | none =>
      rw [hresult] at hfollow
      refine Or.inr ⟨fun found matched after hsplit hmatches => ?_, hfollow⟩
      rw [hread.mpr ⟨matched, hsplit, hmatches⟩] at hresult
      cases hresult
    | some found =>
      obtain ⟨found, after⟩ := found
      rw [hresult] at hfollow
      obtain ⟨next, hnext, hafter⟩ := hfollow
      obtain ⟨matched, rfl, hmatches⟩ := hread.mp hresult
      -- the place in front of what is left is the place behind what was taken
      have hplace : next = offset + width matched :=
        Nat.add_right_cancel (hafter.add_width.trans (At.append hrest).add_width.symm)
      exact Or.inl ⟨found, matched, after, rfl, hmatches, hplace ▸ hnext⟩
  · intro offset hoffset
    obtain ⟨rest, hrest⟩ := exists_at hoffset
    have hfollow := hop hrest
    cases hresult : read rest with
    | none =>
      rw [hresult] at hfollow
      exact ⟨no, offset, hfollow, Nat.le_refl _, hrest.le_width, hoffset⟩
    | some found =>
      obtain ⟨found, after⟩ := found
      rw [hresult] at hfollow
      obtain ⟨next, hnext, hafter⟩ := hfollow
      obtain ⟨matched, rfl, -⟩ := hread.mp hresult
      exact ⟨yes found, next, hnext, hafter.le_of_append hrest, hafter.le_width, hafter.isBoundary⟩

theorem isAtomic_consumeExact (word : List Char) :
    IsAtomic text (consumeExact text word) (fun _ : Unit => true) false
      fun _ matched _ => matched = word := by
  apply (follows_consumeExact word).isAtomic
  intro rest found after
  rw [Option.map_eq_some_iff]
  constructor
  · rintro ⟨after', hread, heq⟩
    cases heq
    exact ⟨word, afterWord_eq_some_iff.mp hread, rfl⟩
  · rintro ⟨_, hrest, rfl⟩
    exact ⟨after, afterWord_eq_some_iff.mpr hrest, rfl⟩

theorem isAtomic_consumeChar (expected : Char) :
    IsAtomic text (consumeChar text expected) (fun _ : Unit => true) false
      fun _ matched _ => matched = [expected] := by
  apply (follows_consumeChar expected).isAtomic
  intro rest found after
  rw [Option.map_eq_some_iff]
  constructor
  · rintro ⟨after', hread, heq⟩
    cases heq
    exact ⟨[expected], afterChar_eq_some_iff.mp hread, rfl⟩
  · rintro ⟨_, hrest, rfl⟩
    exact ⟨after, afterChar_eq_some_iff.mpr hrest, rfl⟩

/-- What reading up to a stop takes: everything in front of it. -/
def IsTaken (stop : Char → Bool) (taken matched after : List Char) : Prop :=
  matched = taken ∧ (∀ c ∈ taken, stop c = false) ∧ ∃ c tail, after = c :: tail ∧ stop c = true

theorem isAtomic_takeUntil (stop : Char → Bool) :
    IsAtomic text (takeUntil text stop) some none (IsTaken stop) := by
  apply (follows_takeUntil stop).isAtomic
  intro rest taken after
  rw [takeUntil_eq_some_iff]
  constructor
  · rintro ⟨hrest, hshape⟩
    exact ⟨taken, hrest, rfl, hshape⟩
  · rintro ⟨_, hrest, rfl, hshape⟩
    exact ⟨hrest, hshape⟩

/-- Arguments in parentheses, which may have blanks in front. -/
def IsParenthesized (arguments matched : List Char) : Prop :=
  ∃ ws, AllBlank ws ∧ ')' ∉ arguments ∧ matched = ws ++ '(' :: (arguments ++ [')'])

theorem isAtomic_parenthesized :
    IsAtomic text (parenthesized text) some none
      fun arguments matched _ => IsParenthesized arguments matched := by
  apply follows_parenthesized.isAtomic
  intro rest arguments after
  rw [parenthesized_eq_some_iff]
  constructor
  · rintro ⟨ws, hws, hmem, rfl⟩
    refine ⟨ws ++ '(' :: (arguments ++ [')']), ?_, ws, hws, hmem, rfl⟩
    simp only [List.append_assoc, List.cons_append, List.nil_append]
  · rintro ⟨_, hrest, ws, hws, hmem, rfl⟩
    refine ⟨ws, hws, hmem, hrest.trans ?_⟩
    simp only [List.append_assoc, List.cons_append, List.nil_append]

/-- A text between two quotes, of whichever kind, that is not empty and holds no quote. -/
def IsQuoted (content matched : List Char) : Prop :=
  ∃ q q', isQuote q = true ∧ isQuote q' = true ∧ content ≠ [] ∧
    (∀ c ∈ content, isQuote c = false) ∧ matched = q :: content ++ [q']

theorem isAtomic_quoted :
    IsAtomic text (quoted text) some none fun content matched _ => IsQuoted content matched := by
  apply follows_quoted.isAtomic
  intro rest content after
  rw [quoted_eq_some_iff]
  constructor
  · rintro ⟨q, q', hq, hq', hempty, hcontent, rfl⟩
    refine ⟨q :: content ++ [q'], ?_, q, q', hq, hq', hempty, hcontent, rfl⟩
    simp only [List.append_assoc, List.cons_append, List.nil_append]
  · rintro ⟨_, hrest, q, q', hq, hq', hempty, hcontent, rfl⟩
    refine ⟨q, q', hq, hq', hempty, hcontent, hrest.trans ?_⟩
    simp only [List.append_assoc, List.cons_append, List.nil_append]

theorem isAtomic_quotedCall (word : List Char) :
    IsAtomic text (quotedCall text word) some none
      fun content matched _ => IsQuotedCall word content [] matched := by
  apply (follows_quotedCall word).isAtomic
  intro rest content after
  rw [quotedCall_eq_some_iff]
  unfold IsQuotedCall
  constructor
  · rintro ⟨ws₁, ws₂, ws₃, q, q', hws₁, hws₂, hws₃, hq, hq', hempty, hcontent, rfl⟩
    refine ⟨_, ?_, ws₁, ws₂, ws₃, q, q', hws₁, hws₂, hws₃, hq, hq', hempty, hcontent, rfl⟩
    simp only [List.append_assoc, List.cons_append, List.nil_append]
  · rintro ⟨_, hrest, ws₁, ws₂, ws₃, q, q', hws₁, hws₂, hws₃, hq, hq', hempty, hcontent, rfl⟩
    refine ⟨ws₁, ws₂, ws₃, q, q', hws₁, hws₂, hws₃, hq, hq', hempty, hcontent, hrest.trans ?_⟩
    simp only [List.append_assoc, List.cons_append, List.nil_append]

theorem isAtomic_integerCall (word : List Char) :
    IsAtomic text (integerCall text word) some none
      fun digits matched _ => IsIntegerCall word digits [] matched := by
  apply (follows_integerCall word).isAtomic
  intro rest digits after
  rw [integerCall_eq_some_iff]
  unfold IsIntegerCall
  constructor
  · rintro ⟨ws₁, ws₂, ws₃, hws₁, hws₂, hws₃, hne, hdigits, rfl⟩
    refine ⟨_, ?_, ws₁, ws₂, ws₃, hws₁, hws₂, hws₃, hne, hdigits, rfl⟩
    simp only [List.append_assoc, List.cons_append, List.nil_append]
  · rintro ⟨_, hrest, ws₁, ws₂, ws₃, hws₁, hws₂, hws₃, hne, hdigits, rfl⟩
    refine ⟨ws₁, ws₂, ws₃, hws₁, hws₂, hws₃, hne, hdigits, hrest.trans ?_⟩
    simp only [List.append_assoc, List.cons_append, List.nil_append]

/-! ## Operations that cannot fail -/

theorem keepsInside_advance : KeepsInside text (advance text) := by
  intro offset hoffset
  obtain ⟨rest, hrest⟩ := exists_at hoffset
  cases rest with
  | nil =>
    refine ⟨none, offset, ?_, Nat.le_refl _, hrest.le_width, hoffset⟩
    rw [advance, bind_apply (peek_of_at hrest)]
    rfl
  | cons c rest =>
    exact ⟨some c, _, advance_of_at hrest, Nat.le_add_right _ _, hrest.tail.le_width,
      hrest.tail.isBoundary⟩

theorem keepsInside_skipBlanks : KeepsInside text (skipBlanks text) := by
  intro offset hoffset
  obtain ⟨rest, hrest⟩ := exists_at hoffset
  obtain ⟨next, hskip, hnext⟩ := skipBlanks_of_at hrest
  have hsplit : At text offset (rest.takeWhile isBlank ++ trimStart rest) := by
    rw [trimStart, List.takeWhile_append_dropWhile]
    exact hrest
  exact ⟨(), next, hskip, hnext.le_of_append hsplit, hnext.le_width, hnext.isBoundary⟩

theorem keepsInside_takeWhile (accept : Char → Bool) : KeepsInside text (takeWhile text accept) := by
  intro offset hoffset
  obtain ⟨rest, hrest⟩ := exists_at hoffset
  obtain ⟨htake, hnext⟩ := takeWhile_of_at accept hrest
  exact ⟨_, _, htake, Nat.le_add_right _ _, hnext.le_width, hnext.isBoundary⟩

end TradingRules.Cursor
