/-
# The orders of a block

A block orders what its leftmost calls say. A place where the word of an order stands without a call
is passed over, be it that no parenthesis follows, that the parenthesis is not closed or that a
purchase has no arguments; so is whatever else stands between the calls. The purchase comes first,
wherever it stands, so two calls may change their places.
-/
import TradingRules.Proofs.Action.Call

namespace TradingRules.Action

open TradingRules.Text

/-! ## The leftmost call -/

/-- A text begins with a call on the given arguments: the word of the order, blanks if any, and the
arguments between parentheses. The arguments of a purchase are not empty. -/
def CallAt (kind : Kind) (arguments text : List Char) : Prop :=
  (kind = .buy → arguments ≠ []) ∧ ')' ∉ arguments ∧ ∃ ws rest, AllBlank ws ∧
    text = kind.word.toList ++ (ws ++ '(' :: (arguments ++ ')' :: rest))

/-- The arguments are those of the leftmost call of a kind of order. -/
def IsFirstCall (kind : Kind) (arguments text : List Char) : Prop :=
  ∃ before after, text = before ++ after ∧ CallAt kind arguments after ∧
    ∀ s, s <:+ before → s ≠ [] → ∀ arguments', ¬ CallAt kind arguments' (s ++ after)

/-- A call is read exactly where one stands. -/
theorem Kind.call_eq_some_iff_callAt {kind : Kind} {text arguments : List Char} :
    kind.call text = some arguments ↔ CallAt kind arguments text := by
  rw [Kind.call_eq_some_iff, CallAt, not_and]

/-- Nothing is read exactly where no call stands. -/
theorem Kind.call_eq_none_iff {kind : Kind} {text : List Char} :
    kind.call text = none ↔ ∀ arguments, ¬ CallAt kind arguments text := by
  rw [Option.eq_none_iff_forall_ne_some]
  exact forall_congr' fun arguments => not_congr Kind.call_eq_some_iff_callAt

/-- The search finds the leftmost call. -/
theorem firstAt_call_eq_some_iff {kind : Kind} {text arguments : List Char} :
    firstAt kind.call text = some arguments ↔ IsFirstCall kind arguments text := by
  rw [firstAt_eq_some_iff]
  simp only [Kind.call_eq_some_iff_callAt, Kind.call_eq_none_iff, IsFirstCall]

/-- The leftmost call has one argument text. -/
theorem IsFirstCall.unique {kind : Kind} {text arguments arguments' : List Char}
    (h : IsFirstCall kind arguments text) (h' : IsFirstCall kind arguments' text) :
    arguments = arguments' := by
  rw [← firstAt_call_eq_some_iff] at h h'
  rw [h] at h'
  exact Option.some.inj h'

/-- An order of a kind is found exactly if it has the parameters of the leftmost call. -/
theorem Kind.find_eq_some_iff {kind : Kind} {text : List Char} {a : Action} :
    kind.find text = some a ↔
      a.kind = kind ∧ ∃ arguments, IsFirstCall kind arguments text ∧
        a.parameters = parseParameters arguments := by
  unfold Kind.find
  rw [Option.map_eq_some_iff]
  constructor
  · rintro ⟨arguments, hfirst, rfl⟩
    exact ⟨rfl, arguments, firstAt_call_eq_some_iff.mp hfirst, rfl⟩
  · rintro ⟨rfl, arguments, hfirst, hparameters⟩
    refine ⟨arguments, firstAt_call_eq_some_iff.mpr hfirst, ?_⟩
    rw [← hparameters]

/-- The orders of a block are those of the leftmost calls. -/
theorem mem_parse_iff {text : List Char} {a : Action} :
    a ∈ parse text ↔ ∃ arguments, IsFirstCall a.kind arguments text ∧
      a.parameters = parseParameters arguments := by
  unfold parse
  rw [List.mem_append, Option.mem_toList, Option.mem_toList, Kind.find_eq_some_iff,
    Kind.find_eq_some_iff]
  constructor
  · rintro (⟨hkind, horder⟩ | ⟨hkind, horder⟩)
    · exact hkind ▸ horder
    · exact hkind ▸ horder
  · intro horder
    cases hkind : a.kind with
    | buy => exact Or.inl ⟨rfl, hkind ▸ horder⟩
    | sell => exact Or.inr ⟨rfl, hkind ▸ horder⟩

/-- The orders of a block are at most one purchase and at most one sale, the purchase first. -/
theorem kinds_parse (text : List Char) : ((parse text).map (·.kind)).Sublist [.buy, .sell] := by
  have hkinds (kind : Kind) : ((kind.find text).toList.map (·.kind)).Sublist [kind] := by
    cases hfind : kind.find text with
    | none => exact List.nil_sublist _
    | some a =>
      obtain ⟨hkind, -⟩ := Kind.find_eq_some_iff.mp hfind
      show [a.kind].Sublist [kind]
      rw [hkind]
  unfold parse
  rw [List.map_append]
  exact (hkinds .buy).append (hkinds .sell)

/-! ## Two calls -/

/-- A text without parentheses. -/
def NoParenthesis (text : List Char) : Prop := '(' ∉ text ∧ ')' ∉ text

instance : DecidablePred NoParenthesis :=
  fun text => inferInstanceAs (Decidable ('(' ∉ text ∧ ')' ∉ text))

/-- A call as it is written. -/
def Kind.written (kind : Kind) (arguments : List Char) : List Char :=
  kind.word.toList ++ '(' :: (arguments ++ [')'])

/-- In front of the first parenthesis of a call stand its word and blanks. -/
theorem CallAt.exists_eq_append {kind : Kind} {arguments front rest : List Char}
    (h : CallAt kind arguments (front ++ '(' :: rest)) (hfront : '(' ∉ front) :
    ∃ ws, AllBlank ws ∧ front = kind.word.toList ++ ws := by
  obtain ⟨-, -, ws, tail, hws, htext⟩ := h
  refine ⟨ws, hws, ?_⟩
  have hword : '(' ∉ kind.word.toList ++ ws := by
    rw [List.mem_append, not_or]
    refine ⟨?_, fun hmem => ?_⟩
    · cases kind <;> decide
    · have hblank := hws _ hmem
      revert hblank
      decide
  have hcut : takeUntil (· == '(') (front ++ '(' :: rest) = some (front, '(' :: rest) :=
    takeUntil_beq_eq_some_iff.mpr ⟨rest, rfl, hfront, rfl⟩
  have hcut' : takeUntil (· == '(') (front ++ '(' :: rest) =
      some (kind.word.toList ++ ws, '(' :: (arguments ++ ')' :: tail)) := by
    refine takeUntil_beq_eq_some_iff.mpr ⟨_, rfl, hword, ?_⟩
    rw [htext, List.append_assoc]
  rw [hcut] at hcut'
  cases hcut'
  rfl

/-- No order has the word of another one in its word. -/
theorem Kind.not_isInfix_word {kind other : Kind} (h : kind ≠ other) :
    ¬ kind.word.toList <:+: other.word.toList := by
  cases kind with
  | buy =>
    cases other with
    | buy => exact absurd rfl h
    | sell => decide
  | sell =>
    cases other with
    | buy => decide
    | sell => exact absurd rfl h

/-- The word of an order does not end with a blank. -/
theorem Kind.isBlank_of_getLast?_word {kind : Kind} {c : Char}
    (h : kind.word.toList.getLast? = some c) : isBlank c = false := by
  cases kind with
  | buy =>
    cases h
    decide
  | sell =>
    cases h
    decide

/-- A call that a text begins with is the leftmost one. -/
theorem CallAt.isFirstCall {kind : Kind} {arguments text : List Char}
    (h : CallAt kind arguments text) : IsFirstCall kind arguments text := by
  refine ⟨[], text, rfl, h, ?_⟩
  intro s hs hne
  exact absurd (List.suffix_nil.mp hs) hne

/-- A call stands where it is written. -/
theorem callAt_written {kind : Kind} {arguments : List Char}
    (hempty : kind = .buy → arguments ≠ []) (hclose : ')' ∉ arguments) (rest : List Char) :
    CallAt kind arguments (kind.written arguments ++ rest) := by
  refine ⟨hempty, hclose, [], rest, AllBlank.nil, ?_⟩
  rw [Kind.written]
  simp only [List.append_assoc, List.cons_append, List.nil_append]

/-- A call is the leftmost one of a text that begins with it. -/
theorem isFirstCall_written {kind : Kind} {arguments : List Char}
    (hempty : kind = .buy → arguments ≠ []) (harguments : NoParenthesis arguments)
    (rest : List Char) : IsFirstCall kind arguments (kind.written arguments ++ rest) :=
  (callAt_written hempty harguments.2 rest).isFirstCall

/-- No call begins within the word of another order: in front of the parenthesis there would have to
stand the word of the call. -/
theorem not_callAt_of_isSuffix_word {kind other : Kind} {arguments front rest : List Char}
    (hkind : kind ≠ other) (hfront : front <:+ other.word.toList) :
    ¬ CallAt kind arguments (front ++ '(' :: rest) := by
  intro hcall
  have hparenthesis : '(' ∉ front := by
    intro hmem
    have hmem' := hfront.subset hmem
    revert hmem'
    cases other <;> decide
  obtain ⟨ws, -, rfl⟩ := hcall.exists_eq_append hparenthesis
  exact Kind.not_isInfix_word hkind ((List.prefix_append _ ws).isInfix.trans hfront.isInfix)

/-- No call begins between the parentheses in front of a call: there would be blanks where the word of
that call ends. -/
theorem not_callAt_in_front {kind : Kind} {arguments arguments' front : List Char}
    (hne : front ≠ []) (hparenthesis : '(' ∉ front) :
    ¬ CallAt kind arguments' (front ++ kind.written arguments) := by
  intro hcall
  have hword : kind.word.toList ≠ [] ∧ '(' ∉ kind.word.toList := by
    cases kind <;> decide
  have hfront : '(' ∉ front ++ kind.word.toList := by
    rw [List.mem_append, not_or]
    exact ⟨hparenthesis, hword.2⟩
  rw [Kind.written, ← List.append_assoc] at hcall
  obtain ⟨ws, hws, hsplit⟩ := hcall.exists_eq_append hfront
  have hwsne : ws ≠ [] := by
    rintro rfl
    rw [List.append_nil] at hsplit
    exact hne (List.append_left_eq_self.mp hsplit)
  have hlast := congrArg List.getLast? hsplit
  rw [List.getLast?_append_of_ne_nil _ hwsne, List.getLast?_append_of_ne_nil _ hword.1,
    List.getLast?_eq_some_getLast hwsne] at hlast
  have hblank := hws _ (List.getLast_mem hwsne)
  rw [Kind.isBlank_of_getLast?_word hlast] at hblank
  cases hblank

/-- A call is the leftmost one of its kind behind a call of the other kind, whatever the arguments of
that call and the text between the two say. -/
theorem isFirstCall_behind {kind other : Kind} {arguments arguments' gap : List Char}
    (hkind : kind ≠ other) (hempty : kind = .buy → arguments ≠ [])
    (harguments : NoParenthesis arguments) (harguments' : NoParenthesis arguments')
    (hgap : NoParenthesis gap) :
    IsFirstCall kind arguments (other.written arguments' ++ gap ++ kind.written arguments) := by
  refine ⟨other.written arguments' ++ gap, kind.written arguments, rfl, ?_, ?_⟩
  · exact ⟨hempty, harguments.2, [], [], AllBlank.nil, rfl⟩
  intro s hs hne found
  have htail : '(' ∉ arguments' ++ [')'] ++ gap := by
    simp [harguments'.1, hgap.1]
  have hbefore : other.written arguments' ++ gap =
      other.word.toList ++ '(' :: (arguments' ++ [')'] ++ gap) := by
    rw [Kind.written]
    simp only [List.append_assoc, List.cons_append]
  rw [hbefore] at hs
  -- a call would begin at the first parenthesis, behind it or in front of it
  rcases List.suffix_or_suffix_of_suffix hs (List.suffix_append _ _) with hlate | ⟨front, rfl⟩
  · rcases List.suffix_cons_iff.mp hlate with rfl | hlate
    · exact not_callAt_of_isSuffix_word hkind List.nil_suffix
    · exact not_callAt_in_front hne fun hmem => htail (hlate.subset hmem)
  · rw [List.append_assoc]
    exact not_callAt_of_isSuffix_word hkind (List.suffix_append_self_iff.mp hs)

/-- A block is read as a purchase and a sale if these are its leftmost calls. -/
theorem parse_of_isFirstCall {text bought sold : List Char} (hbuy : IsFirstCall .buy bought text)
    (hsell : IsFirstCall .sell sold text) :
    parse text = [⟨.buy, parseParameters bought⟩, ⟨.sell, parseParameters sold⟩] := by
  have hbought : Kind.find .buy text = some ⟨.buy, parseParameters bought⟩ :=
    Kind.find_eq_some_iff.mpr ⟨rfl, bought, hbuy, rfl⟩
  have hsold : Kind.find .sell text = some ⟨.sell, parseParameters sold⟩ :=
    Kind.find_eq_some_iff.mpr ⟨rfl, sold, hsell, rfl⟩
  rw [parse, hbought, hsold]
  rfl

/-- **A block orders what its leftmost calls say, and nothing else.** An order is read exactly if its
parameters are those of the arguments of the leftmost call of its kind; these arguments are the only
ones, and the purchase precedes the sale. So a purchase and a sale whose arguments have no
parentheses, with any text without parentheses between them, give the same two orders in either
succession. -/
theorem orders_exact (text : List Char) :
    (∀ a, a ∈ parse text ↔ ∃ arguments, IsFirstCall a.kind arguments text ∧
      a.parameters = parseParameters arguments) ∧
    (∀ kind arguments arguments', IsFirstCall kind arguments text →
      IsFirstCall kind arguments' text → arguments = arguments') ∧
    ((parse text).map (·.kind)).Sublist [.buy, .sell] ∧
    ∀ bought gap sold, bought ≠ [] → NoParenthesis bought → NoParenthesis gap →
      NoParenthesis sold →
      parse (Kind.written .buy bought ++ gap ++ Kind.written .sell sold) =
        [⟨.buy, parseParameters bought⟩, ⟨.sell, parseParameters sold⟩] ∧
      parse (Kind.written .sell sold ++ gap ++ Kind.written .buy bought) =
        [⟨.buy, parseParameters bought⟩, ⟨.sell, parseParameters sold⟩] := by
  refine ⟨fun a => mem_parse_iff, fun kind _ _ => IsFirstCall.unique, kinds_parse text, ?_⟩
  intro bought gap sold hne hbought hgap hsold
  have hsome : Kind.buy = .buy → bought ≠ [] := fun _ => hne
  have hany : Kind.sell = .buy → sold ≠ [] := by
    intro hkind
    cases hkind
  constructor
  · have hfirst := isFirstCall_written hsome hbought (gap ++ Kind.written .sell sold)
    rw [← List.append_assoc] at hfirst
    exact parse_of_isFirstCall hfirst
      (isFirstCall_behind (by decide) hany hsold hbought hgap)
  · have hfirst := isFirstCall_written hany hsold (gap ++ Kind.written .buy bought)
    rw [← List.append_assoc] at hfirst
    exact parse_of_isFirstCall (isFirstCall_behind (by decide) hsome hbought hsold hgap) hfirst

/-- Words of orders in arguments, between the calls and at the end of another word are passed over. -/
theorem orders_of_confusing_calls :
    (NoParenthesis "sell=1, BONK".toList ∧ NoParenthesis " buyout, buy or re".toList ∧
        NoParenthesis "buy 5".toList) ∧
      parse "buy(sell=1, BONK) buyout, buy or resell(buy 5)".toList =
        [⟨.buy, parseParameters "sell=1, BONK".toList⟩, ⟨.sell, parseParameters "buy 5".toList⟩] ∧
      parse "sell(buy 5) buyout, buy or rebuy(sell=1, BONK)".toList =
        [⟨.buy, parseParameters "sell=1, BONK".toList⟩, ⟨.sell, parseParameters "buy 5".toList⟩] := by
  have hbuy : NoParenthesis "sell=1, BONK".toList := by decide
  have hgap : NoParenthesis " buyout, buy or re".toList := by decide
  have hsell : NoParenthesis "buy 5".toList := by decide
  obtain ⟨-, -, -, hexchange⟩ := orders_exact []
  exact ⟨⟨hbuy, hgap, hsell⟩, hexchange _ _ _ (by decide) hbuy hgap hsell⟩

end TradingRules.Action
