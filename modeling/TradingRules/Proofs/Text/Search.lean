/-
# What the searches find

Cutting a text at a mark cuts it at the first occurrence, and fails only if there is none. A search
for a place from which a reader succeeds finds the leftmost one. The pieces of a text between
separators hold none of them.
-/
import Mathlib.Data.List.Infix
import TradingRules.Proofs.Text.Trim
import TradingRules.Text.Search

namespace TradingRules.Text

/-! ## Cutting at a mark -/

/-- A cut passes over a front in which the mark begins nowhere, be it that it ends behind it. -/
theorem cutAt_append_of_not_isPrefix {mark front rest : List Char}
    (h : ∀ s, s <:+ front → s ≠ [] → ¬ mark <+: s ++ rest) :
    cutAt mark (front ++ rest) = (cutAt mark rest).map fun (l, r) => (front ++ l, r) := by
  induction front with
  | nil =>
    rw [List.nil_append]
    cases cutAt mark rest <;> rfl
  | cons c front ih =>
    have hhere : ¬ mark <+: c :: front ++ rest :=
      h (c :: front) (List.suffix_refl _) (List.cons_ne_nil _ _)
    have hlater := ih fun s hs => h s (hs.trans (List.suffix_cons c front))
    rw [List.cons_append, cutAt, if_neg, hlater, Option.map_map]
    · rfl
    · rw [List.isPrefixOf_iff_prefix]
      exact hhere

/-- A text that begins with a mark is cut there. -/
theorem cutAt_mark_append (mark rest : List Char) : cutAt mark (mark ++ rest) = some ([], rest) := by
  cases hmark : mark ++ rest with
  | nil =>
    rw [List.append_eq_nil_iff] at hmark
    rw [hmark.1, hmark.2]
    rfl
  | cons c tail =>
    rw [cutAt, if_pos, ← hmark, List.drop_left]
    rw [← hmark, List.isPrefixOf_iff_prefix]
    exact List.prefix_append mark rest

/-- A text in which a mark does not occur is not cut. -/
theorem cutAt_eq_none_iff {mark text : List Char} : cutAt mark text = none ↔ ¬ mark <:+: text := by
  induction text with
  | nil =>
    rw [cutAt, List.infix_nil]
    cases mark <;> simp
  | cons c text ih =>
    rw [cutAt, List.infix_cons_iff, not_or, ← ih, ← List.isPrefixOf_iff_prefix]
    split_ifs with hfront
    · simp [hfront]
    · rw [Option.map_eq_none_iff]
      exact ⟨fun h => ⟨hfront, h⟩, And.right⟩

/-- A text is cut at the first occurrence of the mark: it consists of what is in front of the mark,
the mark and what follows, and the mark begins nowhere in front. -/
theorem cutAt_eq_some_iff {mark text left right : List Char} :
    cutAt mark text = some (left, right) ↔
      text = left ++ (mark ++ right) ∧
        ∀ s, s <:+ left → s ≠ [] → ¬ mark <+: s ++ (mark ++ right) := by
  constructor
  · intro h
    induction text generalizing left with
    | nil =>
      rw [cutAt] at h
      split_ifs at h with hmark
      rw [List.isEmpty_iff] at hmark
      cases h
      subst hmark
      exact ⟨rfl, fun s hs hne => absurd (List.suffix_nil.mp hs) hne⟩
    | cons c text ih =>
      rw [cutAt] at h
      split_ifs at h with hfront
      · obtain ⟨tail, htail⟩ := List.isPrefixOf_iff_prefix.mp hfront
        rw [← htail, List.drop_left] at h
        cases h
        exact ⟨htail.symm, fun s hs hne => absurd (List.suffix_nil.mp hs) hne⟩
      · rw [Option.map_eq_some_iff] at h
        obtain ⟨⟨left', right'⟩, hcut, heq⟩ := h
        cases heq
        obtain ⟨htext, hfirst⟩ := ih hcut
        refine ⟨by rw [htext, List.cons_append], fun s hs hne => ?_⟩
        rcases List.suffix_cons_iff.mp hs with rfl | hs
        · rw [List.isPrefixOf_iff_prefix, htext] at hfront
          exact hfront
        · exact hfirst s hs hne
  · rintro ⟨rfl, hfirst⟩
    rw [cutAt_append_of_not_isPrefix hfirst, cutAt_mark_append]
    simp

/-- The trimmed text stands in the text. -/
theorem trim_isInfix (text : List Char) : trim text <:+: text := by
  obtain ⟨front, back, -, -, htext⟩ := exists_trim text
  exact ⟨front, back, htext.symm⟩

/-- A text is cut after trimming where it is cut before, if both sides hold more than blanks. -/
theorem cutAt_trim {mark text left right : List Char} (h : cutAt mark text = some (left, right))
    (hleft : ¬ AllBlank left) (hright : ¬ AllBlank right) :
    cutAt mark (trim text) = some (trimStart left, trimEnd right) := by
  obtain ⟨rfl, hfirst⟩ := cutAt_eq_some_iff.mp h
  rw [cutAt_eq_some_iff, ← List.append_assoc, trim_append_of_not_allBlank hleft hright,
    List.append_assoc]
  refine ⟨rfl, fun s hs hne hfront => hfirst s (hs.trans (List.dropWhile_suffix _)) hne ?_⟩
  -- what is cut off the right side only makes the text longer
  obtain ⟨ws, -, hws⟩ := exists_trimEnd right
  refine hfront.trans ⟨ws, ?_⟩
  conv_rhs => rw [hws]
  simp only [List.append_assoc]

/-- A text that is not cut is not cut after trimming. -/
theorem cutAt_trim_eq_none {mark text : List Char} (h : cutAt mark text = none) :
    cutAt mark (trim text) = none := by
  rw [cutAt_eq_none_iff] at h ⊢
  exact fun hoccurs => h (hoccurs.trans (trim_isInfix text))

/-! ## The leftmost place -/

/-- A search finds what the reader makes of the leftmost place from which it succeeds. -/
theorem firstAt_eq_some_iff {α : Type} {read : List Char → Option α} {text : List Char} {found : α} :
    firstAt read text = some found ↔
      ∃ before after, text = before ++ after ∧ read after = some found ∧
        ∀ s, s <:+ before → s ≠ [] → read (s ++ after) = none := by
  induction text with
  | nil =>
    rw [firstAt]
    constructor
    · intro h
      exact ⟨[], [], rfl, h, fun s hs hne => absurd (List.suffix_nil.mp hs) hne⟩
    · rintro ⟨before, after, htext, hread, -⟩
      rw [eq_comm, List.append_eq_nil_iff] at htext
      rwa [htext.2] at hread
  | cons c text ih =>
    rw [firstAt]
    cases hhere : read (c :: text) with
    | some here =>
      constructor
      · intro h
        cases h
        exact ⟨[], c :: text, rfl, hhere, fun s hs hne => absurd (List.suffix_nil.mp hs) hne⟩
      · rintro ⟨before, after, htext, hread, hfirst⟩
        cases before with
        | nil =>
          rw [htext, List.nil_append, hread] at hhere
          exact hhere.symm
        | cons c' before =>
          have := hfirst (c' :: before) (List.suffix_refl _) (List.cons_ne_nil _ _)
          rw [← htext, hhere] at this
          cases this
    | none =>
      show firstAt read text = some found ↔ _
      rw [ih]
      constructor
      · rintro ⟨before, after, rfl, hread, hfirst⟩
        refine ⟨c :: before, after, rfl, hread, fun s hs hne => ?_⟩
        rcases List.suffix_cons_iff.mp hs with rfl | hs
        · exact hhere
        · exact hfirst s hs hne
      · rintro ⟨before, after, htext, hread, hfirst⟩
        cases before with
        | nil =>
          rw [List.nil_append] at htext
          rw [← htext, hhere] at hread
          cases hread
        | cons c' before =>
          cases htext
          exact ⟨before, after, rfl, hread,
            fun s hs => hfirst s (hs.trans (List.suffix_cons _ _))⟩

/-- A search finds something exactly if the reader succeeds from some place. -/
theorem exists_firstAt_iff {α : Type} {read : List Char → Option α} {text : List Char} :
    (∃ found, firstAt read text = some found) ↔
      ∃ before after found, text = before ++ after ∧ read after = some found := by
  constructor
  · rintro ⟨found, h⟩
    obtain ⟨before, after, htext, hread, -⟩ := firstAt_eq_some_iff.mp h
    exact ⟨before, after, found, htext, hread⟩
  · rintro ⟨before, after, found, rfl, hread⟩
    induction before with
    | nil =>
      refine ⟨found, ?_⟩
      cases after with
      | nil => exact hread
      | cons c after => rw [List.nil_append, firstAt, hread]
    | cons c before ih =>
      rw [List.cons_append, firstAt]
      split
      · rename_i found' _
        exact ⟨found', rfl⟩
      · exact ih

/-- A search passes over a front if the reader succeeds from no place in it. -/
theorem firstAt_append {α : Type} {read : List Char → Option α} {front text : List Char}
    (h : ∀ s, s <:+ front → s ≠ [] → read (s ++ text) = none) :
    firstAt read (front ++ text) = firstAt read text := by
  induction front with
  | nil => rfl
  | cons c front ih =>
    have hhere : read (c :: (front ++ text)) = none :=
      h (c :: front) (List.suffix_refl _) (List.cons_ne_nil _ _)
    rw [List.cons_append, firstAt, hhere]
    apply ih
    intro s hs
    exact h s (hs.trans (List.suffix_cons c front))

/-- A search passes over blanks in front if the reader succeeds from none of them. -/
theorem firstAt_append_of_allBlank {α : Type} {read : List Char → Option α} {ws : List Char}
    (text : List Char) (hws : AllBlank ws)
    (h : ∀ c rest, isBlank c = true → read (c :: rest) = none) :
    firstAt read (ws ++ text) = firstAt read text := by
  apply firstAt_append
  intro s hs hne
  obtain ⟨c, rest, rfl⟩ := List.exists_cons_of_ne_nil hne
  exact h c _ (hws c (hs.subset List.mem_cons_self))

/-- A search that the blanks behind a text do not matter to, wherever it begins, finds the same
with and without them. -/
theorem firstAt_append_allBlank {α : Type} {read : List Char → Option α} {ws text : List Char}
    (hws : AllBlank ws) (hblank : ∀ c rest, isBlank c = true → read (c :: rest) = none)
    (h : ∀ text, read (text ++ ws) = read text) :
    firstAt read (text ++ ws) = firstAt read text := by
  induction text with
  | nil =>
    have hnil := firstAt_append_of_allBlank [] hws hblank
    rwa [List.append_nil] at hnil
  | cons c text ih =>
    have hhere : read (c :: (text ++ ws)) = read (c :: text) := h (c :: text)
    rw [List.cons_append, firstAt, firstAt, hhere, ih]

/-- Such a search finds the same in a text and in the trimmed text. -/
theorem firstAt_trim {α : Type} {read : List Char → Option α}
    (hblank : ∀ c rest, isBlank c = true → read (c :: rest) = none)
    (h : ∀ text ws, AllBlank ws → read (text ++ ws) = read text) (text : List Char) :
    firstAt read (trim text) = firstAt read text := by
  obtain ⟨front, back, hfront, hback, htext⟩ := exists_trim text
  conv_rhs => rw [htext, List.append_assoc]
  rw [firstAt_append_of_allBlank _ hfront hblank,
    firstAt_append_allBlank hback hblank fun text => h text back hback]

/-! ## Pieces between separators -/

/-- The pieces are those of the library. -/
theorem splitOn_eq (separator : Char) (text : List Char) :
    splitOn separator text = text.splitOn separator := by
  induction text with
  | nil => rfl
  | cons c text ih =>
    rw [splitOn, List.splitOn_cons_eq_if_modifyHead, ih]
    by_cases hc : c = separator
    · rw [if_pos hc, if_pos (beq_iff_eq.mpr hc)]
    · rw [if_neg hc, if_neg (beq_iff_eq.not.mpr hc)]
      cases hpieces : text.splitOn separator with
      | nil => exact absurd hpieces (List.splitOn_ne_nil _ _)
      | cons piece pieces => rfl

/-- Text without a separator is one piece. -/
theorem splitOn_of_notMem {separator : Char} {text : List Char} (h : separator ∉ text) :
    splitOn separator text = [text] := by
  induction text with
  | nil => rfl
  | cons c rest ih =>
    obtain ⟨hc, hrest⟩ := not_or.mp (List.mem_cons.not.mp h)
    rw [splitOn, if_neg (Ne.symm hc), ih hrest]

/-- A separator keeps the pieces in front of it from those behind it. -/
theorem splitOn_append_cons (separator : Char) (front back : List Char) :
    splitOn separator (front ++ separator :: back) =
      splitOn separator front ++ splitOn separator back := by
  induction front with
  | nil => exact if_pos rfl
  | cons c rest ih =>
    rw [List.cons_append, splitOn, ih, splitOn]
    split_ifs with hc
    · rw [List.cons_append]
    · have hne : splitOn separator rest ≠ [] := by
        rw [splitOn_eq]
        exact List.splitOn_ne_nil _ _
      obtain ⟨piece, pieces, hpieces⟩ := List.exists_cons_of_ne_nil hne
      rw [hpieces]
      rfl

/-- A text is its only piece, or it has at least two. -/
theorem splitOn_eq_singleton_or (separator : Char) (text : List Char) :
    splitOn separator text = [text] ∨
      ∃ first second rest, splitOn separator text = first :: second :: rest := by
  have hjoined : [separator].intercalate (splitOn separator text) = text := by
    rw [splitOn_eq]
    exact List.intercalate_splitOn separator
  cases hpieces : splitOn separator text with
  | nil =>
    rw [splitOn_eq] at hpieces
    exact absurd hpieces (List.splitOn_ne_nil _ _)
  | cons first more =>
    cases more with
    | nil =>
      rw [hpieces, List.intercalate_singleton] at hjoined
      rw [hjoined]
      exact Or.inl rfl
    | cons second rest => exact Or.inr ⟨first, second, rest, rfl⟩

/-- A piece between separators holds none, and nothing that the text does not hold. -/
theorem of_mem_splitOn {separator : Char} {text piece : List Char}
    (h : piece ∈ splitOn separator text) : separator ∉ piece ∧ piece ⊆ text := by
  induction text generalizing piece with
  | nil =>
    cases List.mem_singleton.mp h
    exact ⟨List.not_mem_nil, List.Subset.refl _⟩
  | cons c text ih =>
    rw [splitOn] at h
    split_ifs at h with hc
    · rcases List.mem_cons.mp h with rfl | h
      · exact ⟨List.not_mem_nil, List.nil_subset _⟩
      · exact ⟨(ih h).1, List.subset_cons_of_subset c (ih h).2⟩
    · split at h
      · rename_i hnil
        rw [splitOn_eq] at hnil
        exact absurd hnil (List.splitOn_ne_nil _ _)
      · rename_i first rest hsplit
        rw [hsplit] at ih
        rcases List.mem_cons.mp h with rfl | h
        · -- the first piece has grown by a character that is no separator
          obtain ⟨hfirst, hsubset⟩ := ih List.mem_cons_self
          refine ⟨fun hmem => ?_, List.cons_subset_cons c hsubset⟩
          rcases List.mem_cons.mp hmem with heq | hmem
          · exact hc heq.symm
          · exact hfirst hmem
        · obtain ⟨hpiece, hsubset⟩ := ih (List.mem_cons_of_mem _ h)
          exact ⟨hpiece, List.subset_cons_of_subset c hsubset⟩

end TradingRules.Text
