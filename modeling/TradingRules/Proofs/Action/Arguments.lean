/-
# The arguments of a call

The arguments of a call run to the first closing parenthesis, whatever they hold. The searches for a
purchase and for a sale do not know of each other, so the word of the other order with a parenthesis
behind it, if it stands in the arguments, is a call as well: the same parenthesis closes both. A call
whose arguments open no other one gives its own order and nothing else.
-/
import TradingRules.Proofs.Action.Orders

namespace TradingRules.Action

open TradingRules.Text

/-! ## Calls that are left open -/

/-- A text ends in a call that is not closed: the word of the order, blanks if any, an opening
parenthesis and the arguments up to the end. The arguments of a purchase are not empty. -/
def OpensCall (kind : Kind) (arguments text : List Char) : Prop :=
  (kind = .buy → arguments ≠ []) ∧ ∃ front ws, AllBlank ws ∧
    text = front ++ (kind.word.toList ++ (ws ++ '(' :: arguments))

/-- A text with its only closing parenthesis at the end begins with a call if the call opens at its
beginning and stays open. -/
theorem callAt_concat_iff {kind : Kind} {arguments text : List Char} (hclose : ')' ∉ text) :
    CallAt kind arguments (text ++ [')']) ↔
      (kind = .buy → arguments ≠ []) ∧ ∃ ws, AllBlank ws ∧
        text = kind.word.toList ++ (ws ++ '(' :: arguments) := by
  unfold CallAt
  constructor
  · rintro ⟨hempty, -, ws, rest, hws, htext⟩
    refine ⟨hempty, ws, hws, ?_⟩
    have hsplit : text ++ ')' :: [] =
        kind.word.toList ++ (ws ++ '(' :: arguments) ++ ')' :: rest := by
      rw [htext]
      simp only [List.append_assoc, List.cons_append]
    exact ((List.append_cons_inj_of_notMem hclose List.not_mem_nil).mp hsplit).1
  · rintro ⟨hempty, ws, hws, rfl⟩
    refine ⟨hempty, ?_, ws, [], hws, ?_⟩
    · intro hmem
      apply hclose
      simp [hmem]
    · simp only [List.append_assoc, List.cons_append]

/-- In a text that is closed at its end a call stands exactly if the text opens one. -/
theorem find_concat_eq_none_iff {kind : Kind} {text : List Char} (hclose : ')' ∉ text) :
    kind.find (text ++ [')']) = none ↔ ∀ arguments, ¬ OpensCall kind arguments text := by
  unfold Kind.find
  rw [Option.map_eq_none_iff, Option.eq_none_iff_forall_ne_some]
  constructor
  · rintro hnone arguments ⟨hempty, front, ws, hws, rfl⟩
    have hopen : ')' ∉ kind.word.toList ++ (ws ++ '(' :: arguments) :=
      fun hmem => hclose (List.mem_append_right front hmem)
    have hcall : CallAt kind arguments (kind.word.toList ++ (ws ++ '(' :: arguments) ++ [')']) :=
      (callAt_concat_iff hopen).mpr ⟨hempty, ws, hws, rfl⟩
    obtain ⟨found, hfound⟩ := exists_firstAt_iff.mpr
      ⟨front, _, arguments, rfl, Kind.call_eq_some_iff_callAt.mpr hcall⟩
    rw [← List.append_assoc] at hfound
    exact hnone found hfound
  · intro hnone found hfound
    obtain ⟨before, after, arguments, htext, hcall⟩ := exists_firstAt_iff.mp ⟨found, hfound⟩
    rw [Kind.call_eq_some_iff_callAt] at hcall
    -- the call is not empty, so it ends with the parenthesis that the text is closed by
    rcases List.eq_nil_or_concat' after with rfl | ⟨inner, c, rfl⟩
    · obtain ⟨-, -, ws, rest, -, hnil⟩ := hcall
      revert hnil
      cases kind <;> simp [Kind.word]
    · rw [← List.append_assoc] at htext
      obtain ⟨rfl, hc⟩ := List.append_inj' htext rfl
      cases hc
      have hinner : ')' ∉ inner := fun hmem => hclose (List.mem_append_right before hmem)
      obtain ⟨hempty, ws, hws, rfl⟩ := (callAt_concat_iff hinner).mp hcall
      exact hnone arguments ⟨hempty, before, ws, hws, rfl⟩

/-- A text without an opening parenthesis opens no call. -/
theorem not_opensCall {kind : Kind} {arguments text : List Char} (hopen : '(' ∉ text) :
    ¬ OpensCall kind arguments text := by
  rintro ⟨-, front, ws, -, rfl⟩
  apply hopen
  simp

/-! ## One call -/

/-- The other kind of order. -/
def Kind.other : Kind → Kind
  | .buy => .sell
  | .sell => .buy

theorem Kind.other_ne (kind : Kind) : kind.other ≠ kind := by
  cases kind <;> decide

theorem Kind.eq_or_eq_other (a kind : Kind) : a = kind ∨ a = kind.other := by
  cases a <;> cases kind <;> decide

/-- The orders of a block are those that the two searches find. -/
theorem mem_parse_iff_find {text : List Char} {a : Action} :
    a ∈ parse text ↔ a.kind.find text = some a := by
  rw [mem_parse_iff, Kind.find_eq_some_iff]
  exact ⟨fun h => ⟨rfl, h⟩, And.right⟩

/-- An order of a kind is found in a block exactly if a call of it stands there. -/
theorem exists_mem_parse_iff {kind : Kind} {text : List Char} :
    (∃ a ∈ parse text, a.kind = kind) ↔
      ∃ before after arguments, text = before ++ after ∧ CallAt kind arguments after := by
  constructor
  · rintro ⟨a, ha, rfl⟩
    obtain ⟨arguments, ⟨before, after, htext, hcall, -⟩, -⟩ := mem_parse_iff.mp ha
    exact ⟨before, after, arguments, htext, hcall⟩
  · rintro ⟨before, after, arguments, htext, hcall⟩
    obtain ⟨found, hfound⟩ := exists_firstAt_iff.mpr
      ⟨before, after, arguments, htext, Kind.call_eq_some_iff_callAt.mpr hcall⟩
    exact ⟨⟨kind, parseParameters found⟩,
      mem_parse_iff.mpr ⟨found, firstAt_call_eq_some_iff.mp hfound, rfl⟩, rfl⟩

/-- The order that a call is written for is found in it. -/
theorem find_written {kind : Kind} {arguments : List Char}
    (hempty : kind = .buy → arguments ≠ []) (hclose : ')' ∉ arguments) :
    kind.find (kind.written arguments) = some ⟨kind, parseParameters arguments⟩ := by
  have hcall := callAt_written hempty hclose []
  rw [List.append_nil] at hcall
  exact Kind.find_eq_some_iff.mpr ⟨rfl, arguments, hcall.isFirstCall, rfl⟩

/-- The other order is looked for in the arguments alone: no call of it begins in front of them. -/
theorem find_other_written (kind : Kind) (arguments : List Char) :
    kind.other.find (kind.written arguments) = kind.other.find (arguments ++ [')']) := by
  have hsplit : kind.written arguments = (kind.word.toList ++ ['(']) ++ (arguments ++ [')']) := by
    rw [Kind.written]
    simp only [List.append_assoc, List.cons_append, List.nil_append]
  unfold Kind.find
  rw [hsplit, firstAt_append]
  intro s hs hne
  rw [Kind.call_eq_none_iff]
  intro inner
  obtain ⟨front, rfl⟩ : ∃ front, s = front ++ ['('] := by
    rcases List.suffix_concat_iff.mp hs with rfl | ⟨front, rfl, -⟩
    · exact absurd rfl hne
    · exact ⟨front, rfl⟩
  rw [List.append_assoc]
  exact not_callAt_of_isSuffix_word kind.other_ne (List.suffix_append_self_iff.mp hs)

/-- A call is read as its own order, and as what its arguments with the closing parenthesis order of
the other kind. -/
theorem mem_parse_written_iff {kind : Kind} {arguments : List Char} {a : Action}
    (hempty : kind = .buy → arguments ≠ []) (hclose : ')' ∉ arguments) :
    a ∈ parse (kind.written arguments) ↔ a = ⟨kind, parseParameters arguments⟩ ∨
      a.kind = kind.other ∧ a ∈ parse (arguments ++ [')']) := by
  rw [mem_parse_iff_find, mem_parse_iff_find]
  rcases Kind.eq_or_eq_other a.kind kind with hkind | hkind
  · rw [hkind, find_written hempty hclose, Option.some.injEq, eq_comm]
    exact (or_iff_left fun h => kind.other_ne h.1.symm).symm
  · have hne : a ≠ ⟨kind, parseParameters arguments⟩ := by
      rintro rfl
      exact kind.other_ne hkind.symm
    rw [hkind, find_other_written, or_iff_right hne]
    exact (and_iff_right rfl).symm

/-- A call is read as one order exactly if its arguments do not open a call of the other kind. -/
theorem parse_written_eq_singleton_iff {kind : Kind} {arguments : List Char}
    (hempty : kind = .buy → arguments ≠ []) (hclose : ')' ∉ arguments) :
    parse (kind.written arguments) = [⟨kind, parseParameters arguments⟩] ↔
      ∀ inner, ¬ OpensCall kind.other inner arguments := by
  have hown := find_written hempty hclose
  rw [← find_concat_eq_none_iff hclose, ← find_other_written]
  unfold parse
  cases kind with
  | buy =>
    rw [hown]
    cases hsell : Kind.find .sell (Kind.written .buy arguments) <;> simp [Kind.other, hsell]
  | sell =>
    rw [hown]
    cases hbuy : Kind.find .buy (Kind.written .sell arguments) <;> simp [Kind.other, hbuy]

/-- **What the arguments of a call order besides it.** Let the arguments of a call hold no closing
parenthesis. The call is read as its own order alone exactly if the arguments do not open a call of the
other kind, as they never do without an opening parenthesis. If they do, the order of the other kind is
read that a block of the arguments and the closing parenthesis gives. In every block an order of a kind
is found exactly if a call of it stands somewhere. -/
theorem arguments_exact {kind : Kind} {arguments : List Char}
    (hempty : kind = .buy → arguments ≠ []) (hclose : ')' ∉ arguments) :
    (parse (kind.written arguments) = [⟨kind, parseParameters arguments⟩] ↔
      ∀ inner, ¬ OpensCall kind.other inner arguments) ∧
    ('(' ∉ arguments → parse (kind.written arguments) = [⟨kind, parseParameters arguments⟩]) ∧
    (∀ a, a ∈ parse (kind.written arguments) ↔ a = ⟨kind, parseParameters arguments⟩ ∨
      a.kind = kind.other ∧ a ∈ parse (arguments ++ [')'])) ∧
    ∀ kind' text, (∃ a ∈ parse text, a.kind = kind') ↔
      ∃ before after inner, text = before ++ after ∧ CallAt kind' inner after := by
  have halone := parse_written_eq_singleton_iff hempty hclose
  refine ⟨halone, ?_, fun a => mem_parse_written_iff hempty hclose,
    fun kind' text => exists_mem_parse_iff⟩
  intro hopen
  apply halone.mpr
  intro inner
  exact not_opensCall hopen

/-- The words of the other order in the arguments do no harm without a parenthesis. -/
theorem arguments_of_chatty_calls :
    ((Kind.sell = .buy → "BONK, note=buy the dip".toList ≠ []) ∧
        ')' ∉ "BONK, note=buy the dip".toList ∧ '(' ∉ "BONK, note=buy the dip".toList) ∧
      parse "sell(BONK, note=buy the dip)".toList =
        [⟨.sell, parseParameters "BONK, note=buy the dip".toList⟩] ∧
      (∀ inner, ¬ OpensCall .sell inner "buy ( x, resell".toList) ∧
      parse "buy(buy ( x, resell)".toList = [⟨.buy, parseParameters "buy ( x, resell".toList⟩] := by
  have hempty : Kind.sell = .buy → "BONK, note=buy the dip".toList ≠ [] := by decide
  have hclose : ')' ∉ "BONK, note=buy the dip".toList := by decide
  have hopen : '(' ∉ "BONK, note=buy the dip".toList := by decide
  obtain ⟨-, hplain, -, -⟩ := arguments_exact hempty hclose
  refine ⟨⟨hempty, hclose, hopen⟩, hplain hopen, ?_⟩
  have hbuy : Kind.buy = .buy → "buy ( x, resell".toList ≠ [] := by decide
  obtain ⟨halone, -, -, -⟩ := arguments_exact hbuy (by decide)
  have hread : parse (Kind.written .buy "buy ( x, resell".toList) =
      [⟨.buy, parseParameters "buy ( x, resell".toList⟩] := by decide +kernel
  exact ⟨halone.mp hread, hread⟩

/-- A purchase is read off the arguments of a sale, and a sale off those of a purchase. -/
theorem order_read_off_arguments :
    (')' ∉ "buy(SOL".toList ∧
      parse (Kind.written .sell "buy(SOL".toList) =
        [⟨.buy, parseParameters "SOL".toList⟩, ⟨.sell, parseParameters "buy(SOL".toList⟩] ∧
      parse (Kind.written .sell "buy(SOL".toList) ≠ [⟨.sell, parseParameters "buy(SOL".toList⟩]) ∧
    (')' ∉ "SOL, note=sell (half".toList ∧
      parse (Kind.written .buy "SOL, note=sell (half".toList) =
        [⟨.buy, parseParameters "SOL, note=sell (half".toList⟩,
          ⟨.sell, parseParameters "half".toList⟩]) := by
  decide +kernel

end TradingRules.Action
