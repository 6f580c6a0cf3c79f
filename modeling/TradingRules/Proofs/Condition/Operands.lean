/-
# Operands

A trimmed clause begins and ends with no blank, and the mark of a connective does both, so something
is left on either side when a clause is cut. Every call that the reader makes of itself is on a
trimmed text that is not empty and shorter than the clause, and only a blank text is refused as
empty.

The word of a connective begins and ends as no expression does. Where a connective lacks an operand,
at an end of a text or beside another connective, its word comes to stand at an end of a side, and
the side is refused, for whatever reason, but not as empty.
-/
import TradingRules.Proofs.Condition.WellFormed

namespace TradingRules

open TradingRules.Text

namespace Text

/-- A trimmed text begins with no blanks. -/
theorem IsTrimmed.eq_nil_of_allBlank_left {front rest : List Char} (h : IsTrimmed (front ++ rest))
    (hfront : AllBlank front) : front = [] := by
  cases front with
  | nil => rfl
  | cons c front =>
    have hblank := hfront c List.mem_cons_self
    rw [h.1 c rfl] at hblank
    cases hblank

/-- A trimmed text ends with no blanks. -/
theorem IsTrimmed.eq_nil_of_allBlank_right {rest back : List Char} (h : IsTrimmed (rest ++ back))
    (hback : AllBlank back) : back = [] := by
  by_contra hne
  have hlast : (rest ++ back).getLast? = some (back.getLast hne) := by
    rw [List.getLast?_append_of_ne_nil _ hne, List.getLast?_eq_some_getLast hne]
  have hblank := hback _ (List.getLast_mem hne)
  rw [h.2 _ hlast] at hblank
  cases hblank

end Text

namespace Condition

/-! ## The sides of a cut -/

/-- A text that the reader may be called on for a clause: a part of the clause that is trimmed, not
empty and not the whole clause. -/
structure IsOperand (clause operand : List Char) : Prop where
  isInfix : operand <:+: clause
  isTrimmed : IsTrimmed operand
  ne_nil : operand ≠ []
  length_lt : operand.length < clause.length

/-- Neither side of a trimmed clause is blank. -/
theorem not_allBlank_of_splitJoin {clause left right : List Char} {k : Connective}
    (htrim : IsTrimmed clause) (h : splitJoin clause = some (k, left, right)) :
    ¬ AllBlank left ∧ ¬ AllBlank right := by
  obtain ⟨rfl, -, -⟩ := splitJoin_eq_some h
  have hspace : AllBlank [' '] := by decide
  constructor
  · -- a blank left side would begin the clause, together with the blank in front of the word
    intro hleft
    have hclause : left ++ (mark k ++ right) =
        (left ++ [' ']) ++ (k.word.toList ++ ' ' :: right) := by
      simp [mark]
    rw [hclause] at htrim
    have hnil := htrim.eq_nil_of_allBlank_left (hleft.append hspace)
    simp at hnil
  · intro hright
    have hclause : left ++ (mark k ++ right) =
        (left ++ ' ' :: k.word.toList) ++ ([' '] ++ right) := by
      simp [mark]
    rw [hclause] at htrim
    have hnil := htrim.eq_nil_of_allBlank_right (hspace.append hright)
    simp at hnil

/-- Both sides of a trimmed clause are operands. -/
theorem isOperand_of_splitJoin {clause left right : List Char} {k : Connective}
    (htrim : IsTrimmed clause) (h : splitJoin clause = some (k, left, right)) :
    IsOperand clause (trim left) ∧ IsOperand clause (trim right) := by
  obtain ⟨hleft, hright⟩ := not_allBlank_of_splitJoin htrim h
  obtain ⟨hinLeft, -, hinRight⟩ := isInfix_of_splitJoin h
  obtain ⟨hltLeft, hltRight⟩ := length_splitJoin h
  constructor
  · exact ⟨hinLeft, isTrimmed_trim left, mt trim_eq_nil_iff.mp hleft,
      Nat.lt_of_le_of_lt (length_trim_le left) hltLeft⟩
  · exact ⟨hinRight, isTrimmed_trim right, mt trim_eq_nil_iff.mp hright,
      Nat.lt_of_le_of_lt (length_trim_le right) hltRight⟩

/-! ## The calls of the reader -/

/-- A call of the reader: a clause, and the number of connectives it stands inside. -/
structure Call where
  depth : Nat
  clause : List Char
deriving DecidableEq, Repr

/-- The call on a side of the clause. -/
def Call.onSide (call : Call) (side : List Char) : Call := ⟨call.depth + 1, trim side⟩

/-- What a reading comes to, and the calls it makes in their order, each behind the call that makes
it. -/
structure Noted (α : Type) where
  outcome : Except SyntaxError α
  calls : List (Call × Call)

namespace Noted

variable {α β : Type}

/-- Goes on with what a reading comes to, unless it fails. -/
def bind (first : Noted α) (next : α → Noted β) : Noted β :=
  match first.outcome with
  | .ok a => ⟨(next a).outcome, first.calls ++ (next a).calls⟩
  | .error e => ⟨.error e, first.calls⟩

instance : Monad Noted where
  pure a := ⟨.ok a, []⟩
  bind := bind

/-- Notes that a reading is called, and by which call. -/
def calledFrom (reading : Noted α) (caller callee : Call) : Noted α :=
  ⟨reading.outcome, (caller, callee) :: reading.calls⟩

@[simp] theorem outcome_calledFrom (reading : Noted α) (caller callee : Call) :
    (reading.calledFrom caller callee).outcome = reading.outcome := rfl

@[simp] theorem outcome_pure (a : α) : (pure a : Noted α).outcome = .ok a := rfl

@[simp] theorem outcome_bind (first : Noted α) (next : α → Noted β) :
    (first >>= next).outcome = first.outcome >>= fun a => (next a).outcome := by
  show (bind first next).outcome = _
  unfold bind
  cases first.outcome <;> rfl

/-- The calls of two readings are those of the first one, and of the second one if it is reached. -/
theorem mem_calls_bind {first : Noted α} {next : α → Noted β} {noted : Call × Call} :
    noted ∈ (first >>= next).calls ↔
      noted ∈ first.calls ∨ ∃ a, first.outcome = .ok a ∧ noted ∈ (next a).calls := by
  show noted ∈ (bind first next).calls ↔ _
  unfold bind
  cases first.outcome <;> simp

end Noted

/-- Reads as the reader does, and notes every call that is made on the way. -/
def readNoting (call : Call) : Noted Condition :=
  if call.depth > maxNesting then ⟨.error (.nestingLimit maxNesting), []⟩
  else if call.clause.isEmpty then ⟨.error .emptyCondition, []⟩
  else
    match _h : splitJoin call.clause with
    | some (connective, left, right) => do
      let left ← (readNoting (call.onSide left)).calledFrom call (call.onSide left)
      let right ← (readNoting (call.onSide right)).calledFrom call (call.onSide right)
      return .join connective left right
    | none => ⟨leaf call.clause, []⟩
termination_by call.clause.length
decreasing_by
  · exact Nat.lt_of_le_of_lt (length_trim_le left) (length_splitJoin _h).1
  · exact Nat.lt_of_le_of_lt (length_trim_le right) (length_splitJoin _h).2

/-- A clause that is cut is read by a call on its left side and a call on its right side. -/
theorem readNoting_eq_join {call : Call} {left right : List Char} {k : Connective}
    (hdeep : ¬ call.depth > maxNesting) (hempty : ¬ call.clause.isEmpty = true)
    (hsplit : splitJoin call.clause = some (k, left, right)) :
    readNoting call = (do
      let l ← (readNoting (call.onSide left)).calledFrom call (call.onSide left)
      let r ← (readNoting (call.onSide right)).calledFrom call (call.onSide right)
      return .join k l r) := by
  rw [readNoting, if_neg hdeep, if_neg hempty]
  split
  · rename_i k' left' right' hcut
    rw [hsplit] at hcut
    cases hcut
    rfl
  · rename_i hcut
    rw [hsplit] at hcut
    cases hcut

theorem readNoting_eq_leaf {call : Call} (hdeep : ¬ call.depth > maxNesting)
    (hempty : ¬ call.clause.isEmpty = true) (hsplit : splitJoin call.clause = none) :
    readNoting call = ⟨leaf call.clause, []⟩ := by
  rw [readNoting, if_neg hdeep, if_neg hempty]
  split
  · rename_i k left right hcut
    rw [hsplit] at hcut
    cases hcut
  · rfl

/-- Notes change nothing in what is read. -/
theorem outcome_readNoting (call : Call) :
    (readNoting call).outcome = parseWithin call.depth call.clause := by
  induction call using readNoting.induct with
  | case1 call hdeep => rw [readNoting, if_pos hdeep, parseWithin, if_pos hdeep]
  | case2 call hdeep hempty =>
    rw [readNoting, if_neg hdeep, if_pos hempty, parseWithin, if_neg hdeep, if_pos hempty]
  | case3 call hdeep hempty k left right hsplit ihleft ihright =>
    rw [readNoting_eq_join hdeep hempty hsplit,
      parseWithin_eq_join (Nat.le_of_not_lt hdeep) hsplit]
    simp only [Noted.outcome_bind, Noted.outcome_calledFrom, Noted.outcome_pure, ihleft, ihright]
    rfl
  | case4 call hdeep hempty hsplit =>
    rw [readNoting_eq_leaf hdeep hempty hsplit,
      parseWithin_eq_leaf (Nat.le_of_not_lt hdeep) (mt List.isEmpty_iff.mpr hempty) hsplit]

/-- Every call that is made on the way is on an operand of the clause of the call that makes it. -/
theorem isOperand_of_mem_calls {call caller callee : Call} (htrim : IsTrimmed call.clause)
    (h : (caller, callee) ∈ (readNoting call).calls) : IsOperand caller.clause callee.clause := by
  induction call using readNoting.induct with
  | case1 call hdeep =>
    rw [readNoting, if_pos hdeep] at h
    cases h
  | case2 call hdeep hempty =>
    rw [readNoting, if_neg hdeep, if_pos hempty] at h
    cases h
  | case3 call hdeep hempty k left right hsplit ihleft ihright =>
    obtain ⟨hleft, hright⟩ := isOperand_of_splitJoin htrim hsplit
    rw [readNoting_eq_join hdeep hempty hsplit] at h
    rcases Noted.mem_calls_bind.mp h with h | ⟨l, -, h⟩
    · rcases List.mem_cons.mp h with heq | h
      · cases heq
        exact hleft
      · exact ihleft hleft.isTrimmed h
    · rcases Noted.mem_calls_bind.mp h with h | ⟨r, -, h⟩
      · rcases List.mem_cons.mp h with heq | h
        · cases heq
          exact hright
        · exact ihright hright.isTrimmed h
      · cases h
  | case4 call hdeep hempty hsplit =>
    rw [readNoting_eq_leaf hdeep hempty hsplit] at h
    cases h

end Condition

/-! ## What is refused as empty -/

/-- A fault is one of a clause without connectives. -/
def SyntaxError.IsOfLeaf : SyntaxError → Prop
  | .unknownComparison _ | .unknownExpression _ | .invalidPeriod _ | .periodNotPositive _
  | .literalOutOfRange _ => True
  | _ => False

/-- A message that begins unlike a text is not that text. -/
theorem append_ne_of_not_isPrefix {front back text : String}
    (h : ¬ front.toList <+: text.toList) : front ++ back ≠ text := by
  rintro rfl
  rw [String.toList_append] at h
  exact h (List.prefix_append _ _)

/-- Only an empty condition is reported in these words. -/
theorem SyntaxError.message_eq_iff {e : SyntaxError} :
    e.message = "Empty condition" ↔ e = .emptyCondition := by
  constructor
  · intro h
    cases e with
    | emptyCondition => rfl
    | nameNotFound | missingOpenBrace | missingCloseBrace => exact absurd h (by decide)
    | nestingLimit levels =>
      have h : "Condition nesting exceeds " ++ toString levels ++ " levels" = "Empty condition" := h
      rw [String.append_assoc] at h
      exact absurd h (append_ne_of_not_isPrefix (by decide))
    | emptyBlock text | unknownComparison text | unknownExpression text | invalidPeriod text
    | periodNotPositive text | literalOutOfRange text =>
      exact absurd h (append_ne_of_not_isPrefix (by decide))
  · rintro rfl
    rfl

/-- What is wrong with an expression is a fault of its clause. -/
theorem Expression.isOfLeaf_of_parse {text : List Char} {e : SyntaxError}
    (h : parse text = .error e) : e.IsOfLeaf := by
  rcases exists_spells_or (trim text) with ⟨f, hspells⟩ | hunknown
  · have houtcome : f.outcome (trim text) = .error e := (ofClause_of_spells hspells).symm.trans h
    cases f with
    | tweetContains text => cases houtcome
    | volume => cases houtcome
    | price => cases houtcome
    | indicator kind digits =>
      simp only [Form.outcome, ofDigits] at houtcome
      split_ifs at houtcome <;> cases houtcome <;> trivial
    | literal whole fraction =>
      simp only [Form.outcome] at houtcome
      split_ifs at houtcome
      cases houtcome
      trivial
  · cases hunknown.symm.trans h
    trivial

namespace Condition

/-- What is wrong with a clause without connectives is a fault of the clause. -/
theorem isOfLeaf_of_leaf {clause : List Char} {e : SyntaxError} (h : leaf clause = .error e) :
    e.IsOfLeaf := by
  unfold leaf at h
  split at h
  · split at h
    · cases h
      trivial
    · rcases bind_eq_error_iff.mp h with hleft | ⟨left, -, h⟩
      · exact Expression.isOfLeaf_of_parse hleft
      · rcases bind_eq_error_iff.mp h with hright | ⟨right, -, h⟩
        · exact Expression.isOfLeaf_of_parse hright
        · cases h
  · rcases bind_eq_error_iff.mp h with hleaf | ⟨found, -, h⟩
    · exact Expression.isOfLeaf_of_parse hleaf
    · cases h

/-- What can be wrong with a clause: its nesting, that it is empty, or a fault of a clause without
connectives in it. -/
inductive IsFaultOf (clause : List Char) : SyntaxError → Prop
  | nesting : IsFaultOf clause (.nestingLimit maxNesting)
  | empty (hnil : clause = []) : IsFaultOf clause .emptyCondition
  | leaf {e : SyntaxError} (hleaf : e.IsOfLeaf) : IsFaultOf clause e

/-- What is wrong with an operand is wrong with the clause, since an operand is not empty. -/
theorem IsOperand.isFaultOf {clause operand : List Char} {e : SyntaxError}
    (hoperand : IsOperand clause operand) (h : IsFaultOf operand e) : IsFaultOf clause e := by
  cases h with
  | nesting => exact .nesting
  | empty hnil => exact absurd hnil hoperand.ne_nil
  | leaf hleaf => exact .leaf hleaf

/-- A trimmed clause is refused for what can be wrong with it. -/
theorem isFaultOf_of_parseWithin {depth : Nat} {clause : List Char} {e : SyntaxError}
    (htrim : IsTrimmed clause) (h : parseWithin depth clause = .error e) : IsFaultOf clause e := by
  induction depth, clause using parseWithin.induct with
  | case1 depth clause hdeep =>
    rw [parseWithin, if_pos hdeep] at h
    cases h
    exact .nesting
  | case2 depth clause hdeep hempty =>
    rw [parseWithin, if_neg hdeep, if_pos hempty] at h
    cases h
    exact .empty (List.isEmpty_iff.mp hempty)
  | case3 depth clause hdeep hempty k left right hsplit ihleft ihright =>
    obtain ⟨hleft, hright⟩ := isOperand_of_splitJoin htrim hsplit
    rw [parseWithin_eq_join (Nat.le_of_not_lt hdeep) hsplit] at h
    rcases bind_eq_error_iff.mp h with herror | ⟨l, -, h⟩
    · exact hleft.isFaultOf (ihleft hleft.isTrimmed herror)
    · rcases bind_eq_error_iff.mp h with herror | ⟨r, -, h⟩
      · exact hright.isFaultOf (ihright hright.isTrimmed herror)
      · cases h
  | case4 depth clause hdeep hempty hsplit =>
    rw [parseWithin_eq_leaf (Nat.le_of_not_lt hdeep) (mt List.isEmpty_iff.mpr hempty) hsplit] at h
    exact .leaf (isOfLeaf_of_leaf h)

/-- A text is refused as empty exactly if it is blank. -/
theorem parse_eq_emptyCondition_iff {text : List Char} :
    parse text = .error .emptyCondition ↔ AllBlank text := by
  constructor
  · intro h
    cases isFaultOf_of_parseWithin (isTrimmed_trim text) h with
    | empty hnil => exact trim_eq_nil_iff.mp hnil
    | leaf hleaf => exact hleaf.elim
  · intro h
    rw [parse, trim_eq_nil_iff.mpr h, parseWithin]
    rfl

/-! ## Connectives that lack an operand -/

open TradingRules.Expression (HasEnds)

/-- Texts that begin and end as expressions do make one, whatever stands between them. -/
theorem hasEnds_append {left middle right : List Char} (hleft : HasEnds (trim left))
    (hright : HasEnds (trim right)) : HasEnds (trim (left ++ (middle ++ right))) := by
  obtain ⟨front, inner, hfront, -, hl⟩ := exists_trim left
  obtain ⟨inner', back, -, hback, hr⟩ := exists_trim right
  have hsplit : left ++ (middle ++ right) =
      front ++ (trim left ++ (inner ++ middle ++ inner') ++ trim right) ++ back := by
    conv_lhs => rw [hl, hr]
    simp only [List.append_assoc]
  obtain ⟨⟨first, hfirst, hopens⟩, -⟩ := hleft
  obtain ⟨-, last, hlast, hcloses⟩ := hright
  have hhead : (trim left ++ (inner ++ middle ++ inner') ++ trim right).head? = some first := by
    rw [List.append_assoc, List.head?_append, hfirst]
    rfl
  have hend : (trim left ++ (inner ++ middle ++ inner') ++ trim right).getLast? = some last := by
    rw [List.getLast?_append, hlast]
    rfl
  rw [hsplit, trim_append_append _ hfront hback]
  constructor
  · exact ⟨first, head?_trim hhead ((isTrimmed_trim left).1 first hfirst), hopens⟩
  · exact ⟨last, getLast?_trim hend ((isTrimmed_trim right).2 last hlast), hcloses⟩

/-- An accepted clause begins and ends as an expression does. -/
theorem ReadWithin.hasEnds {depth : Nat} {clause : List Char} {c : Condition}
    (h : ReadWithin depth clause c) (htrim : IsTrimmed clause) : HasEnds clause := by
  induction h with
  | leaf hdepth hsplit hleaf => exact hasEnds_of_leaf htrim hleaf
  | join hdepth hsplit hl hr ihl ihr =>
    obtain ⟨rfl, -, -⟩ := splitJoin_eq_some hsplit
    rw [← trim_eq_self htrim]
    exact hasEnds_append (ihl (isTrimmed_trim _)) (ihr (isTrimmed_trim _))

/-- Where two marks stand to each other, if the first one does not begin behind the second one: they
are the same, or the first one ends in front of the second one, or they share a blank. -/
theorem mark_append_eq_append {k k' : Connective} {between back back' : List Char}
    (h : mark k ++ back = between ++ (mark k' ++ back')) :
    (between = [] ∧ back = back') ∨
      (∃ middle, between = mark k ++ middle ∧ back = middle ++ (mark k' ++ back')) ∨
      between = ' ' :: k.word.toList ∧ back = k'.word.toList ++ ' ' :: back' := by
  by_cases hnil : between = []
  · subst hnil
    refine Or.inl ⟨rfl, ?_⟩
    cases k <;> cases k' <;> simp [mark, Connective.word] at h <;> exact h
  · by_cases hbegin : mark k <+: between
    · obtain ⟨middle, rfl⟩ := hbegin
      rw [List.append_assoc, List.append_cancel_left_eq] at h
      exact Or.inr (Or.inl ⟨middle, rfl, h⟩)
    · have hmark : mark k <+: between ++ (mark k' ++ back') := h ▸ List.prefix_append _ _
      obtain rfl := eq_of_mark_isPrefix hnil head?_mark_append hmark hbegin
      refine Or.inr (Or.inr ⟨rfl, ?_⟩)
      simpa [mark] using h

/-- Trimming does not touch a mark in a text that begins and ends as an expression does. So if the
sides of the mark in the trimmed text have the ends of an expression, its sides in the text have
them as well. -/
theorem hasEnds_beside_of_trim {text front back : List Char} {k : Connective}
    (hends : HasEnds (trim text)) (htext : text = front ++ (mark k ++ back))
    (htrimmed : ∀ front' back', trim text = front' ++ (mark k ++ back') →
      HasEnds (trim front') ∧ HasEnds (trim back')) :
    HasEnds (trim front) ∧ HasEnds (trim back) := by
  rw [← List.append_assoc] at htext
  obtain ⟨hfront, hback⟩ := not_allBlank_beside_mark (htext ▸ hends)
  have htrim : trim text = trimStart front ++ (mark k ++ trimEnd back) := by
    rw [htext, trim_append_of_not_allBlank hfront hback, List.append_assoc]
  have hsides := htrimmed _ _ htrim
  rwa [trim_trimStart, trim_trimEnd] at hsides

/-- A mark in an accepted clause stands between texts that begin and end as expressions do. -/
theorem ReadWithin.hasEnds_beside {depth : Nat} {clause front back : List Char} {c : Condition}
    {k : Connective} (h : ReadWithin depth clause c) (hclause : clause = front ++ (mark k ++ back)) :
    HasEnds (trim front) ∧ HasEnds (trim back) := by
  induction h generalizing front back with
  | leaf hdepth hsplit hleaf =>
    have hmark : mark k <:+: front ++ (mark k ++ back) := ⟨front, back, List.append_assoc _ _ _⟩
    exact absurd (hclause ▸ hmark) (splitJoin_eq_none_iff.mp hsplit k)
  | @join depth clause left right k' l r hdepth hsplit hl hr ihl ihr =>
    have hleft : HasEnds (trim left) := hl.hasEnds (isTrimmed_trim left)
    have hright : HasEnds (trim right) := hr.hasEnds (isTrimmed_trim right)
    obtain ⟨hcut, -, -⟩ := splitJoin_eq_some hsplit
    rcases List.append_eq_append_iff.mp (hcut.symm.trans hclause) with
      ⟨between, rfl, hmarks⟩ | ⟨between, rfl, hmarks⟩
    · -- the mark begins where the clause is cut, or further on
      rcases mark_append_eq_append hmarks with ⟨rfl, rfl⟩ | ⟨middle, rfl, rfl⟩ | ⟨rfl, rfl⟩
      · rw [List.append_nil]
        exact ⟨hleft, hright⟩
      · obtain ⟨hmiddle, hback⟩ := hasEnds_beside_of_trim hright rfl fun _ _ => ihr
        exact ⟨hasEnds_append hleft hmiddle, hback⟩
      · exact (not_opens_of_isPrefix (List.prefix_append _ _) hright).elim
    · -- the mark begins in front of the cut
      rcases mark_append_eq_append hmarks with ⟨rfl, rfl⟩ | ⟨middle, rfl, rfl⟩ | ⟨rfl, rfl⟩
      · rw [List.append_nil] at hleft
        exact ⟨hleft, hright⟩
      · obtain ⟨hfront, hmiddle⟩ := hasEnds_beside_of_trim hleft rfl fun _ _ => ihl
        exact ⟨hfront, hasEnds_append hmiddle hright⟩
      · refine (not_closes_of_isSuffix (k := k) ?_ hleft).elim
        exact (List.suffix_cons _ _).trans (List.suffix_append _ _)

/-- A connective dangles: its word stands at an end of the text. -/
def Dangles (text : List Char) : Prop :=
  ∃ k : Connective, k.word.toList <+: trim text ∨ k.word.toList <:+ trim text

/-- A connective is doubled: nothing but blanks stands between it and the word of another one. -/
def Doubles (text : List Char) : Prop :=
  ∃ front k back, text = front ++ (mark k ++ back) ∧
    ∃ k' : Connective, k'.word.toList <:+ trim front ∨ k'.word.toList <+: trim back

/-- No connective dangles in a text that begins and ends as an expression does. -/
theorem not_dangles_of_hasEnds {text : List Char} (hends : HasEnds (trim text)) :
    ¬ Dangles text := by
  rw [← trim_trim] at hends
  rintro ⟨k, hbegin | hend⟩
  · exact not_opens_of_isPrefix hbegin hends
  · exact not_closes_of_isSuffix hend hends

/-- An accepted text begins and ends as an expression does. -/
theorem hasEnds_of_parse {text : List Char} {c : Condition} (h : parse text = .ok c) :
    HasEnds (trim text) :=
  (readWithin_of_parseWithin h).hasEnds (isTrimmed_trim text)

/-- No connective is doubled in an accepted text. -/
theorem not_doubles_of_parse {text : List Char} {c : Condition} (h : parse text = .ok c) :
    ¬ Doubles text := by
  have hread : ReadWithin 0 (trim text) c := readWithin_of_parseWithin h
  rintro ⟨front, k, back, htext, k', hbeside⟩
  obtain ⟨hfront, hback⟩ :=
    hasEnds_beside_of_trim (hasEnds_of_parse h) htext fun _ _ => hread.hasEnds_beside
  rcases hbeside with hend | hbegin
  · exact not_dangles_of_hasEnds hfront ⟨k', Or.inr hend⟩
  · exact not_dangles_of_hasEnds hback ⟨k', Or.inl hbegin⟩

/-- A text that holds the word of a connective is not blank. -/
theorem not_allBlank_of_word_isInfix {text : List Char} {k : Connective}
    (h : k.word.toList <:+: text) : ¬ AllBlank text := by
  intro hblank
  obtain ⟨c, hc, hnot, -⟩ := exists_head?_word k
  rw [hblank c (h.subset (List.mem_of_head? hc))] at hnot
  cases hnot

theorem Dangles.not_allBlank {text : List Char} (h : Dangles text) : ¬ AllBlank text := by
  obtain ⟨k, hbegin | hend⟩ := h
  · exact not_allBlank_of_word_isInfix (hbegin.isInfix.trans (trim_isInfix text))
  · exact not_allBlank_of_word_isInfix (hend.isInfix.trans (trim_isInfix text))

theorem Doubles.not_allBlank {text : List Char} (h : Doubles text) : ¬ AllBlank text := by
  obtain ⟨front, k, back, rfl, -⟩ := h
  refine not_allBlank_of_word_isInfix (k := k) ⟨front ++ [' '], ' ' :: back, ?_⟩
  simp [mark]

/-- **Operands are never empty.** Every call that the reader makes of itself is on a part of its own
clause that is trimmed, not empty and shorter. So a text is reported as an empty condition exactly
if it is blank, and where a connective dangles or is doubled, the text is refused for another
reason. -/
theorem operands_exact (text : List Char) :
    (readNoting ⟨0, trim text⟩).outcome = parse text ∧
    (∀ caller callee, (caller, callee) ∈ (readNoting ⟨0, trim text⟩).calls →
      IsOperand caller.clause callee.clause) ∧
    ((∃ e, parse text = .error e ∧ e.message = "Empty condition") ↔ AllBlank text) ∧
    (Dangles text ∨ Doubles text → ∃ e, parse text = .error e ∧ e.message ≠ "Empty condition") := by
  have hempty : (∃ e, parse text = .error e ∧ e.message = "Empty condition") ↔ AllBlank text := by
    simp only [SyntaxError.message_eq_iff, exists_eq_right, parse_eq_emptyCondition_iff]
  refine ⟨outcome_readNoting _, fun caller callee hcall => ?_, hempty, fun hbroken => ?_⟩
  · exact isOperand_of_mem_calls (isTrimmed_trim text) hcall
  · have hblank : ¬ AllBlank text := hbroken.elim Dangles.not_allBlank Doubles.not_allBlank
    cases hparse : parse text with
    | ok c =>
      rcases hbroken with hdangles | hdoubles
      · exact absurd hdangles (not_dangles_of_hasEnds (hasEnds_of_parse hparse))
      · exact absurd hdoubles (not_doubles_of_parse hparse)
    | error e => exact ⟨e, rfl, fun hmessage => hblank (hempty.mp ⟨e, hparse, hmessage⟩)⟩

/-- A connective at the end of a text and two of them side by side leave no empty side behind. -/
theorem operands_of_brokenTexts :
    (Dangles "price > 1 and ".toList ∧
      ∃ e, parse "price > 1 and ".toList = .error e ∧ e.message ≠ "Empty condition") ∧
    (Doubles "price and  or price".toList ∧
      ∃ e, parse "price and  or price".toList = .error e ∧ e.message ≠ "Empty condition") ∧
    ((⟨0, "price and  or price".toList⟩, ⟨1, "or price".toList⟩) ∈
        (readNoting ⟨0, trim "price and  or price".toList⟩).calls ∧
      IsOperand "price and  or price".toList "or price".toList) := by
  have hdangles : Dangles "price > 1 and ".toList :=
    ⟨.and, Or.inr ⟨"price > 1 ".toList, by decide⟩⟩
  have hdoubles : Doubles "price and  or price".toList :=
    ⟨"price".toList, .and, " or price".toList, by decide, .or, Or.inr ⟨" price".toList, by decide⟩⟩
  have hcall : (⟨0, "price and  or price".toList⟩, ⟨1, "or price".toList⟩) ∈
      (readNoting ⟨0, trim "price and  or price".toList⟩).calls := by
    decide +kernel
  exact ⟨⟨hdangles, (operands_exact _).2.2.2 (Or.inl hdangles)⟩,
    ⟨hdoubles, (operands_exact _).2.2.2 (Or.inr hdoubles)⟩,
    hcall, (operands_exact _).2.1 _ _ hcall⟩

end Condition

end TradingRules
