/-
# The parsers cut their texts at character boundaries

What the parsers do with offsets is what they do with lists of characters, for every text: none of
their cuts aborts. The offsets that they compute are ends of fronts of the text: those of words that
were found, which do not overlap themselves, of what was read behind them, and of single characters.
-/
import TradingRules.Cursor.Parser
import TradingRules.Proofs.Cursor.Atomic
import TradingRules.Proofs.Strategy.Renaming

namespace TradingRules.Cursor

open TradingRules.Text

variable {text rest after : List Char} {offset : Nat}

/-! ## The places of a word -/

/-- A word without a border: no end of it, apart from itself, is also a beginning. -/
def IsBorderless (word : List Char) : Prop :=
  word ≠ [] ∧ ∀ k < word.length, 0 < k → ¬ word.drop k <+: word

instance (word : List Char) : Decidable (IsBorderless word) :=
  inferInstanceAs (Decidable (_ ∧ _))

/-- Two occurrences of such a word do not overlap. -/
theorem IsBorderless.not_isPrefix_drop {word : List Char} (hword : IsBorderless word)
    (h : word <+: text) {k : Nat} (hpos : 0 < k) (hlt : k < word.length) :
    ¬ word <+: text.drop k := by
  obtain ⟨tail, rfl⟩ := h
  -- the second occurrence begins with the end of the word, which would be a border
  rw [List.drop_append_of_le_length (Nat.le_of_lt hlt)]
  intro hprefix
  refine hword.2 k hlt hpos (List.prefix_of_prefix_length_le (List.prefix_append _ tail) hprefix ?_)
  rw [List.length_drop]
  exact Nat.sub_le _ _

/-- Characters at which the word does not begin may be passed over. -/
theorem occurrencesFrom_eq_of_not_isPrefix {word : List Char} {passed : Nat}
    (h : ∀ k < passed, ¬ word <+: text.drop k) :
    occurrencesFrom word passed offset text = occurrencesFrom word 0 offset text := by
  induction passed generalizing text offset with
  | zero => rfl
  | succ passed ih =>
    cases text with
    | nil => rfl
    | cons c text =>
      have hhere : ¬ word.isPrefixOf (c :: text) = true := by
        rw [List.isPrefixOf_iff_prefix]
        exact h 0 (Nat.succ_pos passed)
      rw [occurrencesFrom, occurrencesFrom, if_neg hhere]
      exact ih fun k hk => h (k + 1) (Nat.succ_lt_succ hk)

/-- The places of such a word are looked for at every character. -/
theorem IsBorderless.occurrencesFrom_cons {word : List Char} (hword : IsBorderless word) (c : Char)
    (rest : List Char) (offset : Nat) :
    occurrencesFrom word 0 offset (c :: rest) =
      if word.isPrefixOf (c :: rest) then
        offset :: occurrencesFrom word 0 (offset + c.utf8Size) rest
      else occurrencesFrom word 0 (offset + c.utf8Size) rest := by
  rw [occurrencesFrom]
  split_ifs with hprefix
  · rw [occurrencesFrom_eq_of_not_isPrefix]
    intro k hk
    rw [List.isPrefixOf_iff_prefix] at hprefix
    exact hword.not_isPrefix_drop hprefix (Nat.succ_pos k) (by omega)
  · rfl

theorem IsBorderless.occurrencesFrom_nil {word : List Char} (hword : IsBorderless word)
    (offset : Nat) : occurrencesFrom word 0 offset [] = [] := by
  rw [occurrencesFrom, if_neg]
  rw [List.isEmpty_iff]
  exact hword.1

/-- What is tried at the places of a word, from the left, gives what a reader makes of the leftmost
place from which it succeeds, if it is what the reader does there and the reader asks for the word. -/
theorem findSomeM?_occurrencesFrom {α : Type} {word : List Char} (hword : IsBorderless word)
    {attempt : Nat → Option (Option α)} {read : List Char → Option α}
    (hplace : ∀ front rest, text = front ++ rest → word <+: rest →
      attempt (width front) = some (read rest))
    (hread : ∀ rest, ¬ word <+: rest → read rest = none) (front : List Char)
    (htext : text = front ++ rest) :
    (occurrencesFrom word 0 (width front) rest).findSomeM? attempt = some (firstAt read rest) := by
  induction rest generalizing front with
  | nil =>
    rw [hword.occurrencesFrom_nil, firstAt, hread [] (List.prefix_nil.not.mpr hword.1)]
    rfl
  | cons c rest ih =>
    have hnext := ih (front ++ [c]) (by rw [htext, List.append_assoc]; rfl)
    rw [width_append, width_cons, width_nil, Nat.add_zero] at hnext
    rw [hword.occurrencesFrom_cons, firstAt]
    split_ifs with hprefix
    · rw [List.isPrefixOf_iff_prefix] at hprefix
      rw [List.findSomeM?_cons, hplace front (c :: rest) htext hprefix]
      cases read (c :: rest) with
      | none => exact hnext
      | some found => rfl
    · rw [List.isPrefixOf_iff_prefix] at hprefix
      rw [hread _ hprefix]
      exact hnext

/-! ## Names and calls -/

theorem findName_eq (source : List Char) :
    findName source = some (Strategy.findName source) := by
  have hword : IsBorderless "strategy".toList := by decide
  refine findSomeM?_occurrencesFrom hword ?_ ?_ [] rfl
  · intro front rest htext _
    have hplace : At source (width front) rest := ⟨front, htext, rfl⟩
    have hcall := follows_quotedCall "strategy".toList hplace
    cases hread : Text.quotedCall "strategy".toList rest with
    | none =>
      rw [hread] at hcall
      rw [hcall]
      rfl
    | some found =>
      rw [hread] at hcall
      obtain ⟨next, hnext, -⟩ := hcall
      rw [hnext]
      rfl
  · intro rest hprefix
    rw [Option.map_eq_none_iff, Option.eq_none_iff_forall_ne_some]
    rintro ⟨name, after⟩ hread
    obtain ⟨middle, rfl⟩ := (quotedCall_eq_some_iff.mp hread).exists_eq_append
    apply hprefix
    rw [List.append_assoc]
    exact List.prefix_append _ _

theorem isBorderless_word (kind : Action.Kind) : IsBorderless kind.word.toList := by
  cases kind with
  | buy => decide
  | sell => decide

theorem callAt_eq {kind : Action.Kind} {front : List Char}
    (htext : text = front ++ (kind.word.toList ++ rest)) :
    callAt kind text (width front) = some (kind.call (kind.word.toList ++ rest)) := by
  have hbehind : At text (width front + width kind.word.toList) rest := At.append ⟨front, htext, rfl⟩
  have hcall := follows_parenthesized hbehind
  rw [callAt, Action.Kind.call, afterWord_eq_some_iff.mpr rfl]
  cases hread : Text.parenthesized rest with
  | none =>
    rw [hread] at hcall
    rw [hcall, Option.bind_eq_bind, Option.bind_some, Option.bind_eq_bind, Option.bind_some, hread]
    rfl
  | some found =>
    rw [hread] at hcall
    obtain ⟨next, hnext, -⟩ := hcall
    rw [hnext, Option.bind_eq_bind, Option.bind_some, Option.bind_eq_bind, Option.bind_some, hread]
    show some ((some found.1).filter _) = some (if _ then none else some found.1)
    rw [Option.filter_some]
    by_cases hempty : kind = .buy ∧ found.1.isEmpty
    · rw [if_pos hempty, hempty.1, hempty.2]
      rfl
    · rw [if_neg hempty, if_pos]
      rw [decide_eq_true_iff, Bool.not_eq_true', ← Bool.not_eq_true]
      exact not_and_or.mp hempty

theorem findCall_eq (kind : Action.Kind) (text : List Char) :
    findCall kind text = some (firstAt kind.call text) := by
  refine findSomeM?_occurrencesFrom (isBorderless_word kind) ?_ ?_ [] rfl
  · rintro front _ htext ⟨rest, rfl⟩
    exact callAt_eq htext
  · intro rest hprefix
    rw [Option.eq_none_iff_forall_ne_some]
    intro arguments hcall
    obtain ⟨-, -, ws, tail, -, rfl⟩ := Action.Kind.call_eq_some_iff.mp hcall
    exact hprefix (List.prefix_append _ _)

/-! ## Whole clauses and comparisons -/

/-- An operation uses up a text when the reader that it follows does. -/
theorem Follows.whole_eq {α : Type} {op : Move (Option α)}
    {read : List Char → Option (α × List Char)} (hop : Follows text op some none read) :
    whole text op = some (Text.whole read text) := by
  have hfollow := hop (at_zero text)
  rw [whole, Text.whole]
  cases hread : read text with
  | none =>
    rw [hread] at hfollow
    rw [hfollow, Option.bind_eq_bind, Option.bind_some]
    dsimp only
    split_ifs <;> rfl
  | some found =>
    obtain ⟨found, after⟩ := found
    rw [hread] at hfollow
    obtain ⟨next, hnext, hafter⟩ := hfollow
    have hwidth := hafter.add_width
    rw [hnext, Option.bind_eq_bind, Option.bind_some]
    dsimp only
    cases after with
    | nil =>
      rw [if_pos]
      · rfl
      · rw [← hwidth, width_nil, Nat.add_zero]
    | cons c after =>
      have := c.utf8Size_pos
      rw [width_cons] at hwidth
      rw [if_neg]
      · rfl
      · omega

theorem splitComparison_eq (text : List Char) :
    splitComparison text = some (Condition.splitComparison text) := by
  cases text with
  | nil => rfl
  | cons first rest =>
    have hfirst : sliceFrom first.utf8Size (first :: rest) = some rest :=
      sliceFrom_eq_some_iff.mpr ⟨[first], rfl, rfl⟩
    rw [splitComparison, Condition.splitComparison, List.head?_cons]
    dsimp only
    rw [hfirst, Option.bind_eq_bind, Option.bind_some, find_eq_map_takeUntil]
    cases hread : Text.takeUntil Condition.isComparisonChar rest with
    | none => rfl
    | some found =>
      obtain ⟨before, tail⟩ := found
      obtain ⟨rfl, -, -⟩ := takeUntil_eq_some_iff.mp hread
      have hstart : first :: before ++ tail = first :: (before ++ tail) := rfl
      have hsymbol : tail.takeWhile Condition.isComparisonChar ++
          tail.dropWhile Condition.isComparisonChar = tail := List.takeWhile_append_dropWhile
      rw [Option.map_some]
      dsimp only
      rw [← width_cons, sliceFrom_of_append_eq hstart, Option.bind_some, find_not_getD,
        sliceFrom_of_append_eq hsymbol, Option.bind_some]
      split_ifs
      · rfl
      · rw [sliceTo_of_append_eq hstart, Option.bind_some, sliceTo_of_append_eq hsymbol]
        rfl

/-! ## Blocks -/

theorem isBorderless_if : IsBorderless "if".toList := by decide

/-- Whether the word `if` at a place stands alone and has a blank behind it. -/
theorem standsAlone_iff {front : List Char} (htext : text = front ++ 'i' :: 'f' :: rest) :
    ∃ alone, standsAlone text (width front) = some alone ∧
      (alone = true ↔ Strategy.IfAt front ('i' :: 'f' :: rest)) := by
  have hsplit : text = front ++ ("if".toList ++ rest) := htext
  have hbehind : At text (width front + width "if".toList) rest := At.append ⟨front, hsplit, rfl⟩
  refine ⟨!Strategy.endsInWord front && rest.head?.any isBlank, ?_, ?_⟩
  · rw [standsAlone, sliceTo_of_append_eq hsplit.symm, sliceFrom_eq_some_iff_at.mpr hbehind]
    rfl
  · rw [Bool.and_eq_true, Bool.not_eq_true', Option.any_eq_true]
    refine and_congr_right fun _ => ?_
    constructor
    · rintro ⟨c, hhead, hblank⟩
      obtain ⟨tail, rfl⟩ := List.head?_eq_some_iff.mp hhead
      exact ⟨c, tail, hblank, rfl⟩
    · rintro ⟨c, tail, hblank, heq⟩
      cases heq
      exact ⟨c, rfl, hblank⟩

/-- The places of the word are tried until one stands alone. -/
theorem findM?_standsAlone (front : List Char) (htext : text = front ++ rest) :
    (occurrencesFrom "if".toList 0 (width front) rest).findM? (standsAlone text) =
      some ((Strategy.nextIf (Strategy.endsInWord front) rest).map fun after =>
        width text - width ("if".toList ++ after)) := by
  induction rest generalizing front with
  | nil => rfl
  | cons c rest ih =>
    have hnext := ih (front ++ [c]) (by rw [htext, List.append_assoc]; rfl)
    rw [width_append, width_cons, width_nil, Nat.add_zero] at hnext
    rw [isBorderless_if.occurrencesFrom_cons]
    by_cases hprefix : "if".toList <+: c :: rest
    · rw [if_pos (List.isPrefixOf_iff_prefix.mpr hprefix)]
      obtain ⟨tail, htail⟩ := hprefix
      have htail : 'i' :: 'f' :: tail = c :: rest := htail
      cases htail
      obtain ⟨alone, hstands, halone⟩ := standsAlone_iff htext
      show (standsAlone text (width front)).bind _ = _
      rw [hstands, Option.bind_some]
      cases alone with
      | true =>
        rw [Strategy.nextIf_of_ifAt (halone.mp rfl)]
        -- the word and what follows it are what the text has behind the front
        have hwidth : width text - width ("if".toList ++ tail) = width front := by
          rw [htext]
          exact width_append_sub front _
        exact congrArg (fun offset => some (some offset)) hwidth.symm
      | false =>
        rw [Strategy.nextIf_cons_of_not_ifAt fun h => Bool.false_ne_true (halone.mpr h)]
        exact hnext
    · rw [if_neg (List.isPrefixOf_iff_prefix.not.mpr hprefix),
        Strategy.nextIf_cons_of_not_ifAt]
      · exact hnext
      · intro hif
        obtain ⟨tail, htail⟩ := hif.exists_eq
        exact hprefix ⟨tail, htail.symm⟩

/-- The next word `if` that stands alone is found, and its offset tells what is in front of it. -/
theorem nextIf_eq (text : List Char) :
    nextIf text = some ((Strategy.nextIf false text).map fun after =>
      width text - width ("if".toList ++ after)) :=
  findM?_standsAlone [] rfl

/-- The offset leads behind the word. -/
theorem nextIf_of_at (h : At text offset rest) :
    match Strategy.nextIf false rest with
    | some after => ∃ found, (sliceFrom offset text).bind nextIf = some (some found) ∧
        At text (offset + found + width "if".toList) after
    | none => (sliceFrom offset text).bind nextIf = some none := by
  rw [sliceFrom_eq_some_iff_at.mpr h, Option.bind_some, nextIf_eq]
  cases hread : Strategy.nextIf false rest with
  | none => rfl
  | some after =>
    have hread : Strategy.nextIf (Strategy.endsInWord []) rest = some after := hread
    obtain ⟨gap, rfl, -, -⟩ := Strategy.nextIf_eq_some_iff.mp hread
    refine ⟨width gap, ?_, ?_⟩
    · exact congrArg (fun offset => some (some offset)) (width_append_sub gap _)
    · exact At.append (At.append h)

/-- A block is cut out of the text as it is out of the list behind the cursor. -/
theorem cutBlock_of_at (h : At text offset rest) :
    match Strategy.cutBlock rest with
    | .ok (b, after) => ∃ next, cutBlock text offset = some (.ok b, next) ∧ At text next after
    | .error e => ∃ next, cutBlock text offset = some (.error e, next) := by
  rw [cutBlock, Strategy.cutBlock]
  cases hcondition : Text.takeUntil (· == '\x7b') rest with
  | none =>
    rw [bind_apply (takeUntil_of_none h hcondition)]
    exact ⟨_, rfl⟩
  | some found =>
    obtain ⟨condition, opening⟩ := found
    obtain ⟨htake, hopening⟩ := takeUntil_of_some h hcondition
    obtain ⟨-, -, c, inner, rfl, -⟩ := takeUntil_eq_some_iff.mp hcondition
    rw [bind_apply htake]
    dsimp only
    rw [bind_apply (advance_of_at hopening), List.drop_one, List.tail_cons]
    cases hbody : Text.takeUntil (· == '\x7d') inner with
    | none =>
      rw [bind_apply (takeUntil_of_none hopening.tail hbody)]
      exact ⟨_, rfl⟩
    | some found =>
      obtain ⟨body, closing⟩ := found
      obtain ⟨htake, hclosing⟩ := takeUntil_of_some hopening.tail hbody
      obtain ⟨-, -, c', after, rfl, -⟩ := takeUntil_eq_some_iff.mp hbody
      rw [bind_apply htake]
      dsimp only
      rw [bind_apply (advance_of_at hclosing)]
      split_ifs
      · exact ⟨_, rfl⟩
      · exact ⟨_, rfl, hclosing.tail⟩

/-- What the loop over the blocks does at an offset. -/
theorem cutBlocksFrom_eq (source : List Char) (offset : Nat) :
    cutBlocksFrom source offset =
      match (sliceFrom offset source).bind nextIf with
      | none => none
      | some none => some (.ok [])
      | some (some found) =>
        match cutBlock source (offset + found + width "if".toList) with
        | none => none
        | some (.error e, _) => some (.error e)
        | some (.ok b, next) => (cutBlocksFrom source next).map (·.map (b :: ·)) := by
  rw [cutBlocksFrom]
  split
  · rename_i hnext
    rw [hnext]
  · rename_i hnext
    rw [hnext]
  · rename_i found hnext
    rw [hnext]
    dsimp only
    split
    · rename_i hcut
      rw [hcut]
    · rename_i e next hcut
      rw [hcut]
    · rename_i b next hcut
      rw [hcut]
      dsimp only
      cases cutBlocksFrom source next <;> rfl

/-- The loop over the blocks, from any boundary on. -/
theorem cutBlocksFrom_of_at (h : At text offset rest) :
    cutBlocksFrom text offset = some (Strategy.cutBlocks rest) := by
  -- the loop goes by offsets, but its course is that of the recursion on the list
  induction rest using Strategy.cutBlocks.induct generalizing offset with
  | case1 rest hnone =>
    have hnext := nextIf_of_at h
    rw [hnone] at hnext
    rw [cutBlocksFrom_eq, hnext, Strategy.cutBlocks_of_nextIf_eq_none hnone]
  | case2 rest start hstart e hcut =>
    have hnext := nextIf_of_at h
    rw [hstart] at hnext
    obtain ⟨found, hfound, hbehind⟩ := hnext
    have hblock := cutBlock_of_at hbehind
    rw [hcut] at hblock
    obtain ⟨next, herror⟩ := hblock
    rw [cutBlocksFrom_eq, hfound, Strategy.cutBlocks_of_error hstart hcut]
    dsimp only
    rw [herror]
  | case3 rest start hstart b after hcut ih =>
    have hnext := nextIf_of_at h
    rw [hstart] at hnext
    obtain ⟨found, hfound, hbehind⟩ := hnext
    have hblock := cutBlock_of_at hbehind
    rw [hcut] at hblock
    obtain ⟨next, hok, hafter⟩ := hblock
    rw [cutBlocksFrom_eq, hfound, Strategy.cutBlocks_of_cutBlock hstart hcut]
    dsimp only
    rw [hok]
    dsimp only
    rw [ih hafter]
    rfl

theorem cutBlocks_eq (source : List Char) : cutBlocks source = some (Strategy.cutBlocks source) :=
  cutBlocksFrom_of_at (at_zero source)

/-! ## The cursor as a whole -/

/-- **Scanning by offsets.** Slices abort exactly off the character boundaries. Begun at a boundary,
every operation that reads something succeeds on a piece of the text of its own shape and stops right
behind it, or fails with the cursor where it was; like the operations that cannot fail it stays in
front of the end, at a boundary and never before the place where it began. So no slice of the parsers
aborts, whatever text they are given: cutting at offsets, they find what the parsers of lists find. -/
theorem cursor_exact (text : List Char) :
    (∀ offset, (cut offset text).isSome = true ↔ IsBoundary text offset) ∧
    (∀ word, IsAtomic text (consumeExact text word) (fun _ : Unit => true) false
      fun _ matched _ => matched = word) ∧
    (∀ expected, IsAtomic text (consumeChar text expected) (fun _ : Unit => true) false
      fun _ matched _ => matched = [expected]) ∧
    (∀ stop, IsAtomic text (takeUntil text stop) some none (IsTaken stop)) ∧
    (IsAtomic text (parenthesized text) some none
      fun arguments matched _ => IsParenthesized arguments matched) ∧
    (IsAtomic text (quoted text) some none fun content matched _ => IsQuoted content matched) ∧
    (∀ word, IsAtomic text (quotedCall text word) some none
      fun content matched _ => IsQuotedCall word content [] matched) ∧
    (∀ word, IsAtomic text (integerCall text word) some none
      fun digits matched _ => IsIntegerCall word digits [] matched) ∧
    KeepsInside text (advance text) ∧
    KeepsInside text (skipBlanks text) ∧
    (∀ accept, KeepsInside text (takeWhile text accept)) ∧
    findName text = some (Strategy.findName text) ∧
    (nextIf text = some ((Strategy.nextIf false text).map fun after =>
      width text - width ("if".toList ++ after))) ∧
    cutBlocks text = some (Strategy.cutBlocks text) ∧
    splitComparison text = some (Condition.splitComparison text) ∧
    (∀ kind : Action.Kind, findCall kind text = some (firstAt kind.call text)) ∧
    (∀ word, whole text (quotedCall text word) = some (Text.whole (Text.quotedCall word) text)) ∧
    ∀ word, whole text (integerCall text word) = some (Text.whole (Text.integerCall word) text) :=
  ⟨fun _ => isSome_cut_iff, isAtomic_consumeExact, isAtomic_consumeChar, isAtomic_takeUntil,
    isAtomic_parenthesized, isAtomic_quoted, isAtomic_quotedCall, isAtomic_integerCall,
    keepsInside_advance, keepsInside_skipBlanks, keepsInside_takeWhile, findName_eq text,
    nextIf_eq text, cutBlocks_eq text, splitComparison_eq text, fun kind => findCall_eq kind text,
    fun word => (follows_quotedCall word).whole_eq, fun word => (follows_integerCall word).whole_eq⟩

end TradingRules.Cursor
