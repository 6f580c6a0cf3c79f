/-
# Quoted text is not taken apart

An accepted expression has two quotes or none, so every accepted condition has an even number of
them. What an accepted call on the signal's text holds besides its keyword, blanks and parentheses
stands between its quotes; so a connective or a comparison in it would leave a single quote on its
left, where nothing is accepted.
-/
import TradingRules.Proofs.Condition.WellFormed

namespace TradingRules

open TradingRules.Text

namespace Text

/-! ## Quotes in pairs -/

/-- The number of quotes in a text is even. -/
def PairedQuotes (text : List Char) : Prop := Even (text.countP isQuote)

theorem countP_isQuote_eq_zero {text : List Char} (h : ∀ c ∈ text, isQuote c = false) :
    text.countP isQuote = 0 := by
  rw [List.countP_eq_zero]
  intro c hc
  rw [h c hc]
  exact Bool.false_ne_true

theorem countP_isQuote_of_allBlank {ws : List Char} (h : AllBlank ws) : ws.countP isQuote = 0 := by
  refine countP_isQuote_eq_zero fun c hc => ?_
  by_contra hquote
  have hblank := isBlank_of_isQuote (Bool.of_not_eq_false hquote)
  rw [h c hc] at hblank
  cases hblank

/-- Trimming removes no quote. -/
theorem pairedQuotes_trim {text : List Char} : PairedQuotes (trim text) ↔ PairedQuotes text := by
  obtain ⟨front, back, hfront, hback, htext⟩ := exists_trim text
  have hcount : text.countP isQuote = (trim text).countP isQuote := by
    conv_lhs => rw [htext]
    rw [List.countP_append, List.countP_append, countP_isQuote_of_allBlank hfront,
      countP_isQuote_of_allBlank hback, zero_add, add_zero]
  rw [PairedQuotes, PairedQuotes, hcount]

/-- A text without quotes at the beginning of another ends in front of the first quote there. -/
theorem exists_append_of_quoteless {front rest left right : List Char} {q : Char}
    (hq : isQuote q = true) (hleft : ∀ c ∈ left, isQuote c = false)
    (h : front ++ q :: rest = left ++ right) : ∃ tail, front = left ++ tail := by
  rcases List.append_eq_append_iff.mp h with ⟨tail, hl, hr⟩ | ⟨tail, hl, -⟩
  · cases tail with
    | nil => exact ⟨[], by rw [hl, List.append_nil, List.append_nil]⟩
    | cons c tail =>
      cases hr
      rw [hleft q (hl ▸ List.mem_append_right _ List.mem_cons_self)] at hq
      cases hq
  · exact ⟨tail, hl⟩

/-- A text without quotes at the end of another begins behind the last quote there. -/
theorem exists_append_of_quoteless_right {front rest left right : List Char} {q : Char}
    (hq : isQuote q = true) (hright : ∀ c ∈ right, isQuote c = false)
    (h : front ++ q :: rest = left ++ right) : ∃ head, rest = head ++ right := by
  rcases List.append_eq_append_iff.mp h with ⟨tail, -, hr⟩ | ⟨tail, -, hr⟩
  · cases tail with
    | nil =>
      rw [List.nil_append] at hr
      rw [hright q (hr ▸ List.mem_cons_self)] at hq
      cases hq
    | cons c tail =>
      cases hr
      exact ⟨tail, rfl⟩
  · rw [hright q (hr ▸ List.mem_append_right _ List.mem_cons_self)] at hq
    cases hq

/-- A text with one pair of quotes that is cut with paired quotes on the left is cut outside of the
quotes. -/
theorem isInfix_of_pairedQuotes {front content back left middle right : List Char} {q q' : Char}
    (hq : isQuote q = true) (hq' : isQuote q' = true) (hfront : ∀ c ∈ front, isQuote c = false)
    (hcontent : ∀ c ∈ content, isQuote c = false) (hback : ∀ c ∈ back, isQuote c = false)
    (hmiddle : ∀ c ∈ middle, isQuote c = false)
    (h : front ++ q :: (content ++ q' :: back) = left ++ (middle ++ right))
    (hleft : PairedQuotes left) : middle <:+: front ∨ middle <:+: back := by
  have hcount : left.countP isQuote + right.countP isQuote = 2 := by
    have := congrArg (List.countP isQuote) h
    simp only [List.countP_append, List.countP_cons, hq, hq', countP_isQuote_eq_zero hfront,
      countP_isQuote_eq_zero hcontent, countP_isQuote_eq_zero hback,
      countP_isQuote_eq_zero hmiddle] at this
    simpa using this.symm
  have hquoteless {text : List Char} (hzero : text.countP isQuote = 0) :
      ∀ c ∈ text, isQuote c = false :=
    fun c hc => Bool.eq_false_iff.mpr (List.countP_eq_zero.mp hzero c hc)
  obtain ⟨k, hk⟩ := hleft
  rcases Nat.eq_zero_or_pos (left.countP isQuote) with hzero | hpos
  · -- the cut is in front of both quotes
    have hbefore : ∀ c ∈ left ++ middle, isQuote c = false := fun c hc =>
      (List.mem_append.mp hc).elim (hquoteless hzero c) (hmiddle c)
    rw [← List.append_assoc] at h
    obtain ⟨tail, htail⟩ := exists_append_of_quoteless hq hbefore h
    exact Or.inl ⟨left, tail, htail.symm⟩
  · -- the cut is behind both quotes
    have hzero : right.countP isQuote = 0 := by omega
    have hafter : ∀ c ∈ middle ++ right, isQuote c = false := fun c hc =>
      (List.mem_append.mp hc).elim (hmiddle c) (hquoteless hzero c)
    rw [← List.cons_append, ← List.append_assoc] at h
    obtain ⟨head, hhead⟩ := exists_append_of_quoteless_right hq' hafter h
    exact Or.inr ⟨head, right, by rw [hhead, List.append_assoc]⟩

end Text

namespace Condition

/-! ## What stands outside of quotes -/

/-- A character that may stand behind the word of an expression, outside of quotes. -/
def IsFiller (c : Char) : Prop := isBlank c = true ∨ c ∈ ['(', ')', '.'] ∨ c.isDigit = true

instance : DecidablePred IsFiller := fun _ => inferInstanceAs (Decidable (_ ∨ _))

/-- A text of fillers alone. -/
def AllFiller (text : List Char) : Prop := ∀ c ∈ text, IsFiller c

theorem AllFiller.nil : AllFiller [] := fun _ h => absurd h List.not_mem_nil

theorem AllFiller.cons {c : Char} {text : List Char} (hc : IsFiller c) (h : AllFiller text) :
    AllFiller (c :: text) :=
  List.forall_mem_cons.mpr ⟨hc, h⟩

theorem AllFiller.append {front back : List Char} (hfront : AllFiller front)
    (hback : AllFiller back) : AllFiller (front ++ back) :=
  List.forall_mem_append.mpr ⟨hfront, hback⟩

theorem allFiller_of_allBlank {ws : List Char} (h : AllBlank ws) : AllFiller ws :=
  fun c hc => Or.inl (h c hc)

/-- A filler is no quote, no comparison character and no letter that a connective begins with. -/
theorem IsFiller.ne {c d : Char} (h : IsFiller c) (hd : d ∈ ['"', '\'', '<', '>', '=', 'a', 'o']) :
    c ≠ d := by
  rintro rfl
  simp only [List.mem_cons, List.not_mem_nil, or_false] at hd
  rcases hd with rfl | rfl | rfl | rfl | rfl | rfl | rfl <;> revert h <;> decide

theorem IsFiller.isQuote_eq_false {c : Char} (h : IsFiller c) : isQuote c = false := by
  simp [isQuote, h.ne]

theorem IsFiller.isComparisonChar_eq_false {c : Char} (h : IsFiller c) :
    isComparisonChar c = false := by
  simp [isComparisonChar, h.ne]

/-- A word of an expression: it holds no blank, no quote and no comparison character. -/
def isKeyword (word : List Char) : Bool :=
  word.all fun c => c != ' ' && !isQuote c && !isComparisonChar c

theorem isKeyword_iff {word : List Char} : isKeyword word = true ↔
    ∀ c ∈ word, c ≠ ' ' ∧ isQuote c = false ∧ isComparisonChar c = false := by
  simp [isKeyword, and_assoc]

/-- What may stand outside of quotes: a word, or none, and fillers behind it. -/
def IsBare (text : List Char) : Prop :=
  ∃ word rest, isKeyword word = true ∧ AllFiller rest ∧ text = word ++ rest

theorem IsBare.isQuote_eq_false {text : List Char} (h : IsBare text) {c : Char} (hc : c ∈ text) :
    isQuote c = false := by
  obtain ⟨word, rest, hword, hrest, rfl⟩ := h
  rcases List.mem_append.mp hc with hc | hc
  · exact (isKeyword_iff.mp hword c hc).2.1
  · exact (hrest c hc).isQuote_eq_false

theorem IsBare.isComparisonChar_eq_false {text : List Char} (h : IsBare text) {c : Char}
    (hc : c ∈ text) : isComparisonChar c = false := by
  obtain ⟨word, rest, hword, hrest, rfl⟩ := h
  rcases List.mem_append.mp hc with hc | hc
  · exact (isKeyword_iff.mp hword c hc).2.2
  · exact (hrest c hc).isComparisonChar_eq_false

/-- A connective does not stand outside of quotes: its first blank would stand behind the word,
where no letter follows. -/
theorem IsBare.not_mark_isInfix {text : List Char} (h : IsBare text) (k : Connective) :
    ¬ mark k <:+: text := by
  obtain ⟨word, rest, hword, hrest, rfl⟩ := h
  obtain ⟨letter, tail, hmark, hletter⟩ : ∃ letter tail, mark k = ' ' :: letter :: tail ∧
      letter ∈ ['"', '\'', '<', '>', '=', 'a', 'o'] := by
    cases k with
    | and => exact ⟨'a', _, rfl, by decide⟩
    | or => exact ⟨'o', _, rfl, by decide⟩
  rintro ⟨x, y, hxy⟩
  rw [hmark, List.append_assoc] at hxy
  have hmem : letter ∈ rest := by
    rcases List.append_eq_append_iff.mp hxy with ⟨front, hx, hrest'⟩ | ⟨front, hx, hrest'⟩
    · cases front with
      | nil =>
        rw [List.nil_append] at hrest'
        rw [← hrest']
        simp
      | cons c front =>
        -- the blank would be in the word
        have hc : ' ' = c := (List.cons.inj hrest').1
        have hblank : c ∈ word := hx ▸ List.mem_append_right _ List.mem_cons_self
        exact absurd hc.symm (isKeyword_iff.mp hword c hblank).1
    · rw [hrest']
      simp
  exact (hrest letter hmem).ne hletter rfl

/-- How an accepted clause is made up: it stands outside of quotes, or it has one pair of quotes. -/
theorem isBare_or_of_spells {f : Expression.Form} {clause : List Char} (h : f.Spells clause) :
    IsBare clause ∨ ∃ front q content q' back, isQuote q = true ∧ isQuote q' = true ∧
      IsBare front ∧ (∀ c ∈ content, isQuote c = false) ∧ IsBare back ∧
      clause = front ++ q :: (content ++ q' :: back) := by
  cases f with
  | tweetContains text =>
    obtain ⟨ws₁, ws₂, ws₃, q, q', hws₁, hws₂, hws₃, hq, hq', -, htext, rfl⟩ := h
    have hgap : AllFiller (ws₁ ++ '(' :: ws₂) :=
      (allFiller_of_allBlank hws₁).append (.cons (by decide) (allFiller_of_allBlank hws₂))
    have hback : AllFiller (ws₃ ++ [')']) :=
      (allFiller_of_allBlank hws₃).append (.cons (by decide) .nil)
    refine Or.inr ⟨"tweet.contains".toList ++ (ws₁ ++ '(' :: ws₂), q, text, q', ws₃ ++ [')'],
      hq, hq', ⟨_, _, by decide, hgap, rfl⟩, htext, ⟨[], _, rfl, hback, rfl⟩, ?_⟩
    simp only [List.append_assoc, List.cons_append]
  | volume =>
    cases h
    exact Or.inl ⟨_, [], by decide, .nil, (List.append_nil _).symm⟩
  | price =>
    cases h
    exact Or.inl ⟨_, [], by decide, .nil, (List.append_nil _).symm⟩
  | indicator kind digits =>
    obtain ⟨ws₁, ws₂, ws₃, hws₁, hws₂, hws₃, -, hdigits, rfl⟩ := h
    have hkeyword : isKeyword kind.keyword.toList = true := by
      cases kind <;> decide
    have hdigits' : AllFiller digits := fun c hc => Or.inr (Or.inr (hdigits c hc))
    have hrest : AllFiller (ws₁ ++ '(' :: (ws₂ ++ (digits ++ (ws₃ ++ [')'])))) :=
      (allFiller_of_allBlank hws₁).append (.cons (by decide)
        ((allFiller_of_allBlank hws₂).append (hdigits'.append
          ((allFiller_of_allBlank hws₃).append (.cons (by decide) .nil)))))
    refine Or.inl ⟨kind.keyword.toList, _, hkeyword, hrest, ?_⟩
    simp only [List.append_assoc, List.cons_append]
  | literal digits fraction =>
    refine Or.inl ⟨[], clause, rfl, fun c hc => ?_, rfl⟩
    rcases h.isPlainChar.2 c hc with hdigit | rfl
    · exact Or.inr (Or.inr hdigit)
    · exact Or.inr (Or.inl (by decide))

/-! ## Accepted clauses -/

/-- An accepted expression has its quotes in pairs. -/
theorem pairedQuotes_of_parse {text : List Char} {e : Expression}
    (h : Expression.parse text = .ok e) : PairedQuotes text := by
  obtain ⟨f, hspells, -⟩ := Expression.exists_spells_of_ofClause h
  rw [← pairedQuotes_trim]
  have hcount {text : List Char} (hbare : IsBare text) : text.countP isQuote = 0 :=
    countP_isQuote_eq_zero fun c hc => hbare.isQuote_eq_false hc
  rcases isBare_or_of_spells hspells with
    hbare | ⟨front, q, content, q', back, hq, hq', hfront, hcontent, hback, htext⟩
  · exact ⟨0, hcount hbare⟩
  · refine ⟨1, ?_⟩
    rw [htext]
    simp only [List.countP_append, List.countP_cons, hq, hq', hcount hfront, hcount hback,
      countP_isQuote_eq_zero hcontent, if_pos]

/-- A connective holds no quote. -/
theorem isQuote_of_mem_mark {k : Connective} {c : Char} (h : c ∈ mark k) : isQuote c = false := by
  have hall : (mark k).all (fun c => !isQuote c) = true := by
    cases k <;> decide
  simpa using List.all_eq_true.mp hall c h

/-- A comparison character is no quote. -/
theorem isQuote_of_isComparisonChar {c : Char} (h : isComparisonChar c = true) :
    isQuote c = false := by
  rw [isComparisonChar, Bool.or_eq_true, Bool.or_eq_true, beq_iff_eq, beq_iff_eq, beq_iff_eq] at h
  rcases h with (rfl | rfl) | rfl <;> rfl

/-- An accepted clause has its quotes in pairs. -/
theorem ReadWithin.pairedQuotes {depth : Nat} {clause : List Char} {c : Condition}
    (h : ReadWithin depth clause c) : PairedQuotes clause := by
  induction h with
  | leaf hdepth hsplit hleaf =>
    rcases leaf_eq_ok hleaf with
      ⟨left, symbol, right, k, l, r, hcut, -, hl, hr, -⟩ | ⟨-, e, he, -⟩
    · obtain ⟨first, before, c, tail, rfl, -, rfl, rfl, rfl, -⟩ := splitComparison_eq_some hcut
      have hleft := pairedQuotes_trim.mp (pairedQuotes_of_parse hl)
      have hright := pairedQuotes_trim.mp (pairedQuotes_of_parse hr)
      have hsymbol : ((c :: tail).takeWhile isComparisonChar).countP isQuote = 0 :=
        countP_isQuote_eq_zero fun d hd => isQuote_of_isComparisonChar (List.mem_takeWhile_imp hd)
      rw [PairedQuotes, List.countP_append,
        ← List.takeWhile_append_dropWhile (p := isComparisonChar) (l := c :: tail),
        List.countP_append, hsymbol, zero_add]
      exact hleft.add hright
    · exact pairedQuotes_of_parse he
  | join hdepth hsplit hl hr ihl ihr =>
    obtain ⟨rfl, -, -⟩ := splitJoin_eq_some hsplit
    rw [PairedQuotes, List.countP_append, List.countP_append,
      countP_isQuote_eq_zero fun c hc => isQuote_of_mem_mark hc, zero_add]
    exact (pairedQuotes_trim.mp ihl).add (pairedQuotes_trim.mp ihr)

/-! ## Connectives and comparisons in an accepted expression -/

open TradingRules.Expression (HasEnds Opens Closes)

/-- A text holds neither a connective nor a comparison character. -/
structure IsUnmarked (text : List Char) : Prop where
  no_and : ¬ " and ".toList <:+: text
  no_or : ¬ " or ".toList <:+: text
  no_less : '<' ∉ text
  no_greater : '>' ∉ text
  no_equals : '=' ∉ text

theorem isUnmarked_iff {text : List Char} : IsUnmarked text ↔
    (∀ k, ¬ mark k <:+: text) ∧ ∀ c ∈ text, isComparisonChar c = false := by
  have hand : mark .and = " and ".toList := by decide
  have hor : mark .or = " or ".toList := by decide
  constructor
  · intro h
    refine ⟨fun k => ?_, fun c hc => ?_⟩
    · cases k with
      | and => exact hand ▸ h.no_and
      | or => exact hor ▸ h.no_or
    · rw [isComparisonChar, Bool.or_eq_false_iff, Bool.or_eq_false_iff, beq_eq_false_iff_ne,
        beq_eq_false_iff_ne, beq_eq_false_iff_ne]
      refine ⟨⟨?_, ?_⟩, ?_⟩ <;> rintro rfl
      · exact h.no_less hc
      · exact h.no_greater hc
      · exact h.no_equals hc
  · rintro ⟨hmarks, hchars⟩
    exact ⟨hand ▸ hmarks .and, hor ▸ hmarks .or, fun hc => absurd (hchars _ hc) (by decide),
      fun hc => absurd (hchars _ hc) (by decide), fun hc => absurd (hchars _ hc) (by decide)⟩

/-- No expression begins with a comparison character. -/
theorem isComparisonChar_of_opens {c : Char} (h : Opens c) : isComparisonChar c = false := by
  rcases h with hletter | hdigit
  · simp only [List.mem_cons, List.not_mem_nil, or_false] at hletter
    rcases hletter with rfl | rfl | rfl | rfl | rfl | rfl <;> rfl
  · exact IsFiller.isComparisonChar_eq_false (Or.inr (Or.inr hdigit))

/-- No expression ends with a comparison character or a blank. -/
theorem isComparisonChar_of_closes {c : Char} (h : Closes c) :
    isComparisonChar c = false ∧ isBlank c = false := by
  rcases h with hletter | hdigit
  · simp only [List.mem_cons, List.not_mem_nil, or_false] at hletter
    rcases hletter with rfl | rfl | rfl <;> decide
  · exact ⟨IsFiller.isComparisonChar_eq_false (Or.inr (Or.inr hdigit)), isBlank_of_isDigit hdigit⟩

/-- A clause that has the ends of an expression and is no comparison holds no comparison character:
a single expression cannot end with one. -/
theorem isComparisonChar_of_splitComparison_eq_none {clause : List Char} (hends : HasEnds clause)
    (h : splitComparison clause = none) {c : Char} (hc : c ∈ clause) :
    isComparisonChar c = false := by
  obtain ⟨⟨head, hhead, hopens⟩, last, hlast, hcloses⟩ := hends
  cases clause with
  | nil => cases hc
  | cons first rest =>
    cases hhead
    rw [splitComparison] at h
    split at h
    · rename_i hnone
      rcases List.mem_cons.mp hc with rfl | hc
      · exact isComparisonChar_of_opens hopens
      · exact takeUntil_eq_none_iff.mp hnone c hc
    · -- only blanks follow the comparison symbol
      rename_i before tail htail
      simp only at h
      split_ifs at h with hempty
      exfalso
      obtain ⟨hrest, -, d, tail, rfl, -⟩ := takeUntil_eq_some_iff.mp htail
      rw [List.isEmpty_iff, trim_eq_nil_iff] at hempty
      have hmem : last ∈ d :: tail := by
        refine List.mem_of_getLast? ?_
        rw [← hlast, hrest, ← List.cons_append,
          List.getLast?_append_of_ne_nil _ (List.cons_ne_nil _ _)]
      rw [← List.takeWhile_append_dropWhile (p := isComparisonChar) (l := d :: tail)] at hmem
      obtain ⟨hcomparison, hblank⟩ := isComparisonChar_of_closes hcloses
      rcases List.mem_append.mp hmem with hmem | hmem
      · rw [List.mem_takeWhile_imp hmem] at hcomparison
        cases hcomparison
      · rw [hempty last hmem] at hblank
        cases hblank

/-- A clause that is written as an expression and accepted as a condition holds neither a connective
nor a comparison character: cut at one, it would have a single quote on the left. -/
theorem ReadWithin.isUnmarked {f : Expression.Form} {depth : Nat} {clause : List Char}
    {c : Condition} (h : ReadWithin depth clause c) (hspells : f.Spells clause)
    (hends : HasEnds clause) : IsUnmarked clause := by
  rw [isUnmarked_iff]
  rcases isBare_or_of_spells hspells with
    hbare | ⟨front, q, content, q', back, hq, hq', hfront, hcontent, hback, htext⟩
  · exact ⟨hbare.not_mark_isInfix, fun c hc => hbare.isComparisonChar_eq_false hc⟩
  -- whatever is cut out with paired quotes on the left stands outside of the quotes
  have hcut {left middle right : List Char} (hmiddle : ∀ c ∈ middle, isQuote c = false)
      (hclause : clause = left ++ (middle ++ right)) (hleft : PairedQuotes left) :
      middle <:+: front ∨ middle <:+: back :=
    isInfix_of_pairedQuotes hq hq' (fun c hc => hfront.isQuote_eq_false hc) hcontent
      (fun c hc => hback.isQuote_eq_false hc) hmiddle (htext ▸ hclause) hleft
  cases h with
  | join hdepth hsplit hl hr =>
    obtain ⟨hclause, -, -⟩ := splitJoin_eq_some hsplit
    rcases hcut (fun c hc => isQuote_of_mem_mark hc) hclause
      (pairedQuotes_trim.mp hl.pairedQuotes) with hmark | hmark
    · exact absurd hmark (hfront.not_mark_isInfix _)
    · exact absurd hmark (hback.not_mark_isInfix _)
  | leaf hdepth hsplit hleaf =>
    refine ⟨splitJoin_eq_none_iff.mp hsplit, ?_⟩
    rcases leaf_eq_ok hleaf with
      ⟨left, symbol, right, k, l, r, hsplit, -, hl, -, -⟩ | ⟨hsplit, -⟩
    · obtain ⟨first, before, d, tail, hclause, hd, rfl, -⟩ := splitComparison_eq_some hsplit
      have hmiddle : ∀ c ∈ [d], isQuote c = false := fun c hc =>
        isQuote_of_isComparisonChar (List.mem_singleton.mp hc ▸ hd)
      rcases hcut hmiddle hclause (pairedQuotes_trim.mp (pairedQuotes_of_parse hl)) with hin | hin
      · rw [hfront.isComparisonChar_eq_false (hin.subset List.mem_cons_self)] at hd
        cases hd
      · rw [hback.isComparisonChar_eq_false (hin.subset List.mem_cons_self)] at hd
        cases hd
    · exact fun c hc => isComparisonChar_of_splitComparison_eq_none hends hsplit hc

/-- Blanks around an expression hide no connective and no comparison character. -/
theorem isUnmarked_trim {text : List Char} (hends : HasEnds (trim text)) :
    IsUnmarked (trim text) ↔ IsUnmarked text := by
  rw [isUnmarked_iff, isUnmarked_iff]
  constructor
  · rintro ⟨hmarks, hchars⟩
    refine ⟨(isApart_of_trim hends hmarks).not_isInfix, fun c hc => ?_⟩
    obtain ⟨front, back, hfront, hback, htext⟩ := exists_trim text
    rw [htext, List.mem_append, List.mem_append] at hc
    rcases hc with (hc | hc) | hc
    · exact IsFiller.isComparisonChar_eq_false (Or.inl (hfront c hc))
    · exact hchars c hc
    · exact IsFiller.isComparisonChar_eq_false (Or.inl (hback c hc))
  · rintro ⟨hmarks, hchars⟩
    exact ⟨fun k hk => hmarks k (hk.trans (trim_isInfix text)),
      fun c hc => hchars c ((trim_isInfix text).subset hc)⟩

/-- A clause without comparison characters is no comparison. -/
theorem splitComparison_eq_none {clause : List Char}
    (h : ∀ c ∈ clause, isComparisonChar c = false) : splitComparison clause = none := by
  cases hsplit : splitComparison clause with
  | none => rfl
  | some parts =>
    obtain ⟨left, symbol, right⟩ := parts
    obtain ⟨first, before, c, tail, rfl, hc, -⟩ := splitComparison_eq_some hsplit
    rw [h c (List.mem_append_right _ List.mem_cons_self)] at hc
    cases hc

/-- A clause without connectives and comparison characters is read as a single expression. -/
theorem parse_of_isUnmarked {text : List Char} {e : Expression} (h : Expression.parse text = .ok e)
    (hunmarked : IsUnmarked (trim text)) : parse text = .ok (.holds e) := by
  obtain ⟨hmarks, hchars⟩ := isUnmarked_iff.mp hunmarked
  have hblank : ¬ AllBlank text := not_allBlank_of_hasEnds (Expression.hasEnds_of_parse h)
  have hparse : Expression.parse (trim text) = .ok e := by
    rw [Expression.parse, trim_trim]
    exact h
  rw [parse, parseWithin_of_splitJoin_eq_none (by decide) hblank (splitJoin_eq_none_iff.mpr hmarks),
    leaf, splitComparison_eq_none hchars]
  simp only [hparse]
  rfl

/-- An accepted expression is read as a condition in one way only: as a single expression, if it
holds neither a connective nor a comparison character. Otherwise these stand in its quoted text, and
it is refused. -/
theorem quoted_exact {text : List Char} {e : Expression} (h : Expression.parse text = .ok e) :
    (IsUnmarked text → parse text = .ok (.holds e)) ∧
      (¬ IsUnmarked text → ∃ error, parse text = .error error) ∧
      ∀ c, parse text = .ok c → c = .holds e := by
  have hends := Expression.hasEnds_of_parse h
  obtain ⟨f, hspells, -⟩ := Expression.exists_spells_of_ofClause h
  have hunmarked {c : Condition} (hc : parse text = .ok c) : IsUnmarked (trim text) :=
    (readWithin_of_parseWithin hc).isUnmarked hspells hends
  refine ⟨fun hplain => ?_, fun hmarked => ?_, fun c hc => ?_⟩
  · exact parse_of_isUnmarked h ((isUnmarked_trim hends).mpr hplain)
  · cases hparse : parse text with
    | error error => exact ⟨error, rfl⟩
    | ok c => exact absurd ((isUnmarked_trim hends).mp (hunmarked hparse)) hmarked
  · have hholds := parse_of_isUnmarked h (hunmarked hc)
    rw [hc] at hholds
    exact Except.ok.inj hholds

/-- A quoted text with a connective in it is refused, and one with only the letters of a connective
is not. -/
theorem quoted_andText :
    parse "tweet.contains('candle')".toList = .ok (.holds (.tweetContains "candle")) ∧
      ∃ error, parse "tweet.contains('dogs and cats')".toList = .error error := by
  have hplain : Expression.parse "tweet.contains('candle')".toList =
      .ok (.tweetContains "candle") := by
    decide
  have hquoted : Expression.parse "tweet.contains('dogs and cats')".toList =
      .ok (.tweetContains "dogs and cats") := by
    decide
  refine ⟨(quoted_exact hplain).1 ?_, (quoted_exact hquoted).2.1 fun h => ?_⟩
  · exact ⟨by decide, by decide, by decide, by decide, by decide⟩
  · exact h.no_and ⟨"tweet.contains('dogs".toList, "cats')".toList, by decide⟩

end Condition

end TradingRules
