/-
# Renaming a strategy

The name of a strategy and its blocks are looked for independently of one another, each in the whole
source. So the name can be taken for a part of a block, and this happens exactly if the word `if`
stands alone in it. All other names may be exchanged for one another: the same rules are read behind
them, or the same fault is found.

The search for blocks is followed across marks, that is, characters that are neither blank nor part
of a word. No standing `if` reaches over a mark, so the search in front of it and the search behind it
are independent. The quotes around a name and the parentheses around those are such marks.
-/
import TradingRules.Proofs.Expression.Reading
import TradingRules.Proofs.Strategy.Reading

namespace TradingRules.Strategy

open TradingRules.Text

/-! ## The search for blocks across a mark -/

/-- A character that is neither blank nor part of a word. -/
structure IsMark (c : Char) : Prop where
  notWord : isWordChar c = false
  notBlank : isBlank c = false

theorem isMark_quote : IsMark '"' :=
  ⟨by decide +kernel, by decide +kernel⟩

theorem isMark_open : IsMark '(' :=
  ⟨by decide +kernel, by decide +kernel⟩

theorem isMark_close : IsMark ')' :=
  ⟨by decide +kernel, by decide +kernel⟩

section

variable {mark : Char} (hmark : IsMark mark)

include hmark

/-- A mark is no letter. -/
theorem IsMark.ne_of_isWordChar {c : Char} (hc : isWordChar c = true) : mark ≠ c := by
  rintro rfl
  rw [hmark.notWord] at hc
  cases hc

/-- The word `if` and the blank behind it stand in front of a mark or behind it. -/
theorem afterIf_append_mark (text rest : List Char) :
    afterIf (text ++ mark :: rest) = (afterIf text).map (· ++ mark :: rest) := by
  cases hread : afterIf text with
  | some after =>
    obtain ⟨rfl, c, tail, hblank, rfl⟩ := afterIf_eq_some_iff.mp hread
    exact afterIf_eq_some_iff.mpr ⟨rfl, c, _, hblank, rfl⟩
  | none =>
    rw [Option.map_none, Option.eq_none_iff_forall_ne_some]
    intro after hafter
    obtain ⟨htext, c, tail, hblank, rfl⟩ := afterIf_eq_some_iff.mp hafter
    -- none of the three characters is the mark, so the text in front of it holds all of them
    have hi : mark ≠ 'i' := hmark.ne_of_isWordChar (by decide +kernel)
    have hf : mark ≠ 'f' := hmark.ne_of_isWordChar (by decide +kernel)
    match text with
    | [] =>
      injection htext with hfirst
      exact hi hfirst
    | [_] =>
      injection htext with _ htext
      injection htext with hsecond
      exact hf hsecond
    | [_, _] =>
      injection htext with _ htext
      injection htext with _ htext
      injection htext with hthird
      rw [← hthird, hmark.notBlank] at hblank
      cases hblank
    | _ :: _ :: _ :: text =>
      cases htext
      have hfound : afterIf ('i' :: 'f' :: c :: text) = some (c :: text) :=
        afterIf_eq_some_iff.mpr ⟨rfl, c, text, hblank, rfl⟩
      rw [hfound] at hread
      cases hread

/-- The next standing `if` of a text with a mark is the one in front of the mark, and if there is none
the one behind it. -/
theorem nextIf_append_mark (inWord : Bool) (text rest : List Char) :
    nextIf inWord (text ++ mark :: rest) =
      ((nextIf inWord text).map (· ++ mark :: rest)).or (nextIf false rest) := by
  induction text generalizing inWord with
  | nil =>
    have hnone : afterIf (mark :: rest) = none := afterIf_append_mark hmark [] rest
    show nextIf inWord (mark :: rest) = nextIf false rest
    rw [nextIf, hnone, hmark.notWord]
  | cons c text ih =>
    have hafter : afterIf (c :: (text ++ mark :: rest)) =
        (afterIf (c :: text)).map (· ++ mark :: rest) := afterIf_append_mark hmark (c :: text) rest
    rw [List.cons_append, nextIf, nextIf, hafter]
    cases afterIf (c :: text) with
    | none => exact ih (isWordChar c)
    | some after =>
      cases inWord with
      | true => exact ih (isWordChar c)
      | false => rfl

end

/-! ## The blocks of a text by its next `if` -/

theorem cutBlocks_of_error {text start : List Char} {e : SyntaxError}
    (hstart : nextIf false text = some start) (hcut : cutBlock start = .error e) :
    cutBlocks text = .error e := by
  rw [cutBlocks]
  split
  · rename_i hnone
    rw [hstart] at hnone
    cases hnone
  · rename_i start' hstart'
    rw [hstart] at hstart'
    cases hstart'
    split
    · rename_i e' herror
      rw [hcut] at herror
      cases herror
      rfl
    · rename_i hok
      rw [hcut] at hok
      cases hok

/-- The blocks of a text depend only on where the next standing `if` is. -/
theorem cutBlocks_congr {text text' : List Char} (h : nextIf false text = nextIf false text') :
    cutBlocks text = cutBlocks text' := by
  cases hstart : nextIf false text with
  | none =>
    have hstart' : nextIf false text' = none := h.symm.trans hstart
    rw [cutBlocks_of_nextIf_eq_none hstart, cutBlocks_of_nextIf_eq_none hstart']
  | some start =>
    have hstart' : nextIf false text' = some start := h.symm.trans hstart
    cases hcut : cutBlock start with
    | error e => rw [cutBlocks_of_error hstart hcut, cutBlocks_of_error hstart' hcut]
    | ok found => rw [cutBlocks_of_cutBlock hstart hcut, cutBlocks_of_cutBlock hstart' hcut]

/-- A text without blocks is one in which no `if` stands alone. -/
theorem noIfIn_of_cutBlocks_eq_nil {text : List Char} (h : cutBlocks text = .ok []) :
    NoIfIn [] text [] := by
  obtain ⟨segments, hlayout, hsegments⟩ := (cutBlocks_eq_ok_iff [] rfl).mp h
  cases hlayout with
  | done hgap => exact hgap
  | block _ _ _ _ => cases hsegments

/-! ## Sources that begin with a name -/

/-- The source that begins with the call that names a strategy. -/
def named (name rest : String) : String :=
  "strategy(\"" ++ name ++ "\")" ++ rest

theorem toList_named (name rest : String) : (named name rest).toList =
    "strategy".toList ++ '(' :: ([] ++ '"' :: (name.toList ++ '"' :: ([] ++ ')' :: rest.toList))) := by
  simp [named, String.toList_append]

/-- The name that is found is the one that the source begins with. -/
theorem findName_named {name : String} (hname : IsQuotable name.toList) (rest : String) :
    findName (named name rest).toList = some name.toList := by
  rw [findName_eq_some_iff]
  refine ⟨[], (named name rest).toList, rfl, ?_, ?_⟩
  · refine ⟨rest.toList, [], [], [], '"', '"', AllBlank.nil, AllBlank.nil, AllBlank.nil, rfl, rfl,
      hname.ne_nil, hname.no_quote, ?_⟩
    rw [toList_named]
    simp
  · intro s hsuffix hne
    exact absurd (List.suffix_nil.mp hsuffix) hne

/-- The next standing `if` of a source that begins with a name is the one in the name, and if there
is none the one behind the call. -/
theorem nextIf_named (name rest : String) : nextIf false (named name rest).toList =
    ((nextIf false name.toList).map (· ++ "\")".toList ++ rest.toList)).or
      (nextIf false rest.toList) := by
  have hword : nextIf false "strategy".toList = none := by decide +kernel
  rw [toList_named, nextIf_append_mark isMark_open, hword, nextIf_append_mark isMark_quote,
    nextIf_append_mark isMark_quote, nextIf_append_mark isMark_close]
  simp [nextIf]

/-- Behind a name in which no `if` stands alone the blocks are those of the text behind the call. -/
theorem cutBlocks_named {name : String} (hif : NoIfIn [] name.toList []) (rest : String) :
    cutBlocks (named name rest).toList = cutBlocks rest.toList := by
  have hnone : nextIf false name.toList = none := nextIf_eq_none_iff.mpr hif
  apply cutBlocks_congr
  rw [nextIf_named, hnone]
  rfl

/-- A source without blocks has a name in which no `if` stands alone. -/
theorem noIfIn_of_cutBlocks_named {name rest : String}
    (h : cutBlocks (named name rest).toList = .ok []) : NoIfIn [] name.toList [] := by
  have hnone : nextIf false (named name rest).toList = none :=
    nextIf_eq_none_iff.mpr (noIfIn_of_cutBlocks_eq_nil h)
  rw [nextIf_named, Option.or_eq_none_iff, Option.map_eq_none_iff] at hnone
  exact nextIf_eq_none_iff.mp hnone.1

/-- The rules of the blocks of a text. -/
def rulesIn (text : List Char) : Except SyntaxError (List Rule) := do
  readRules (← cutBlocks text)

/-- A source that begins with a name is read as a strategy of this name. -/
theorem parse_named {name : String} (hname : IsQuotable name.toList) (rest : String) :
    parse (named name rest) = (rulesIn (named name rest).toList).map (⟨name, ·⟩) := by
  rw [parse, parseChars, findName_named hname, rulesIn]
  simp only [String.ofList_toList]
  cases cutBlocks (named name rest).toList with
  | error e => rfl
  | ok blocks =>
    show (readRules blocks >>= fun rules => _) = (readRules blocks).map _
    cases readRules blocks <;> rfl

/-- Rules are read of no block only if there is none. -/
theorem cutBlocks_eq_nil_of_rulesIn {text : List Char} (h : rulesIn text = .ok []) :
    cutBlocks text = .ok [] := by
  obtain ⟨blocks, hblocks, hrules⟩ := bind_eq_ok_iff.mp h
  cases blocks with
  | nil => exact hblocks
  | cons b rest =>
    obtain ⟨_, -, hrules⟩ := bind_eq_ok_iff.mp hrules
    obtain ⟨_, -, hrules⟩ := bind_eq_ok_iff.mp hrules
    cases hrules

/-! ## Renaming -/

/-- **Names in which no `if` stands alone may be exchanged.** Behind such a name the blocks are those of
the text behind the call, so nothing in the name is read as one. Such a name may be exchanged for
another one, in front of every text and without any change to the rules or to the fault, exactly if no
`if` stands alone in the other one either. -/
theorem renaming_exact {n₁ n₂ : String} (hname₁ : IsQuotable n₁.toList)
    (hname₂ : IsQuotable n₂.toList) (hif : NoIfIn [] n₁.toList []) :
    (∀ rest, cutBlocks (named n₁ rest).toList = cutBlocks rest.toList) ∧
      ((∀ rest,
        (∃ e, parse (named n₁ rest) = .error e ∧ parse (named n₂ rest) = .error e) ∨
          ∃ rules, parse (named n₁ rest) = .ok ⟨n₁, rules⟩ ∧
            parse (named n₂ rest) = .ok ⟨n₂, rules⟩) ↔
        NoIfIn [] n₂.toList []) := by
  refine ⟨cutBlocks_named hif, ?_, ?_⟩
  · intro hsame
    -- in front of the empty text the first name has no rules, so the second one has none either
    have hempty : cutBlocks (named n₁ "").toList = .ok [] := by
      rw [cutBlocks_named hif]
      exact cutBlocks_of_nextIf_eq_none rfl
    have hparse : parse (named n₁ "") = .ok ⟨n₁, []⟩ := by
      rw [parse_named hname₁, rulesIn, hempty]
      rfl
    rcases hsame "" with ⟨e, herror, -⟩ | ⟨rules, hrules, hother⟩
    · rw [hparse] at herror
      cases herror
    · rw [hparse] at hrules
      cases hrules
      rw [parse_named hname₂] at hother
      have hnone : rulesIn (named n₂ "").toList = .ok [] := by
        cases hread : rulesIn (named n₂ "").toList with
        | error e =>
          rw [hread] at hother
          cases hother
        | ok rules =>
          rw [hread] at hother
          cases hother
          rfl
      exact noIfIn_of_cutBlocks_named (cutBlocks_eq_nil_of_rulesIn hnone)
  · intro hif₂ rest
    have hblocks : rulesIn (named n₁ rest).toList = rulesIn (named n₂ rest).toList := by
      rw [rulesIn, rulesIn, cutBlocks_named hif, cutBlocks_named hif₂]
    rw [parse_named hname₁, parse_named hname₂, hblocks]
    cases rulesIn (named n₂ rest).toList with
    | error e => exact Or.inl ⟨e, rfl, rfl⟩
    | ok rules => exact Or.inr ⟨rules, rfl, rfl⟩

/-- What may stand behind a name: one block. -/
def oneBlock : String :=
  " \x7b if price > 1 \x7b buy(SOL) \x7d \x7d"

/-- The rule of the block. -/
def oneRule : Rule where
  condition := .compare .price .greater (.literal 1.0)
  actions := [⟨.buy, .ofList [("token", .text "SOL")]⟩]

/-- An `if` that is a part of a word, and one that no blank follows, do not stand alone in a name. -/
theorem renaming_gif_fund_what_if :
    (IsQuotable "Gif Fund".toList ∧ IsQuotable "what if".toList ∧
        NoIfIn [] "Gif Fund".toList [] ∧ NoIfIn [] "what if".toList []) ∧
      parse (named "Gif Fund" oneBlock) = .ok ⟨"Gif Fund", [oneRule]⟩ ∧
      parse (named "what if" oneBlock) = .ok ⟨"what if", [oneRule]⟩ := by
  have hquotable₁ : IsQuotable "Gif Fund".toList := ⟨by decide, by simp [isQuote]⟩
  have hquotable₂ : IsQuotable "what if".toList := ⟨by decide, by simp [isQuote]⟩
  have hgif : NoIfIn [] "Gif Fund".toList [] := nextIf_eq_none_iff.mp (by decide +kernel)
  have hwhat : NoIfIn [] "what if".toList [] := nextIf_eq_none_iff.mp (by decide +kernel)
  have hparse : parse (named "Gif Fund" oneBlock) = .ok ⟨"Gif Fund", [oneRule]⟩ := by
    decide +kernel
  obtain ⟨-, hrename⟩ := renaming_exact hquotable₁ hquotable₂ hgif
  refine ⟨⟨hquotable₁, hquotable₂, hgif, hwhat⟩, hparse, ?_⟩
  rcases hrename.mpr hwhat oneBlock with ⟨e, herror, -⟩ | ⟨rules, hrules, hother⟩
  · rw [hparse] at herror
    cases herror
  · rw [hparse] at hrules
    cases hrules
    exact hother

/-- A name in which an `if` stands alone is read as the beginning of a block. It spoils the block that
follows it, and it can be a block of its own. -/
theorem name_read_as_block :
    (∃ rule, parse (named "only" oneBlock) = .ok ⟨"only", [rule]⟩ ∧
      parse (named "if only" oneBlock) = .error (.unknownExpression "only\")")) ∧
    ∃ rule, parse (named "x" "") = .ok ⟨"x", []⟩ ∧
      parse (named "if price \x7b sell() \x7d" "") =
        .ok ⟨"if price \x7b sell() \x7d", [rule]⟩ := by
  constructor
  · have honly : parse (named "only" oneBlock) = .ok ⟨"only", [oneRule]⟩ := by decide +kernel
    have hspoilt : parse (named "if only" oneBlock) = .error (.unknownExpression "only\")") := by
      decide +kernel
    exact ⟨oneRule, honly, hspoilt⟩
  · have hx : parse (named "x" "") = .ok ⟨"x", []⟩ := by decide +kernel
    have hblock : parse (named "if price \x7b sell() \x7d" "") =
        .ok ⟨"if price \x7b sell() \x7d", [⟨.holds .price, [⟨.sell, .empty⟩]⟩]⟩ := by
      decide +kernel
    exact ⟨_, hx, hblock⟩

end TradingRules.Strategy
