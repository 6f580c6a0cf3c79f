/-
# Lower-casing a part of a text

Every character is lower-cased by itself, but for the capital sigma: its form tells whether a word
ends there, and so depends on the text around it. A part of a text that stands between two others is
lower-cased as it is alone exactly if its sigmas keep their forms. That is so between all texts, if no
sigma of the part is open: ends or begins, apart from case-ignorable characters, a word of which the
rest may lie outside.
-/
import Mathlib
import TradingRules.Text.Lowercase

namespace TradingRules.Text

/-! ## Looking past case-ignorable characters -/

/-- A text of case-ignorable characters alone. -/
def AllIgnorable (text : List Char) : Prop :=
  ∀ c ∈ text, caseIgnorableRanges.has c.toNat = true

theorem allIgnorable_reverse {text : List Char} : AllIgnorable text.reverse ↔ AllIgnorable text := by
  simp only [AllIgnorable, List.mem_reverse]

theorem sigma_notMem {text : List Char} (h : AllIgnorable text) : 'Σ' ∉ text := by
  intro hmem
  have hsigma : caseIgnorableRanges.has 'Σ'.toNat = false := by decide +kernel
  rw [h _ hmem] at hsigma
  cases hsigma

theorem not_allIgnorable_append_sigma (front rest : List Char) :
    ¬ AllIgnorable (front ++ 'Σ' :: rest) :=
  fun h => sigma_notMem h (List.mem_append_right front List.mem_cons_self)

/-- A look passes over case-ignorable characters. -/
theorem meetsCased_append_of_allIgnorable {front : List Char} (h : AllIgnorable front)
    (rest : List Char) : meetsCased (front ++ rest) = meetsCased rest := by
  unfold meetsCased
  rw [List.dropWhile_append_of_pos h]

theorem meetsCased_of_allIgnorable {text : List Char} (h : AllIgnorable text) :
    meetsCased text = false := by
  rw [← List.append_nil text, meetsCased_append_of_allIgnorable h]
  rfl

/-- A look ends at the first character that is not case-ignorable. -/
theorem meetsCased_append_of_not_allIgnorable {front : List Char} (h : ¬ AllIgnorable front)
    (rest : List Char) : meetsCased (front ++ rest) = meetsCased front := by
  unfold meetsCased
  rw [List.dropWhile_append]
  cases hfront : front.dropWhile fun c => caseIgnorableRanges.has c.toNat with
  | nil => exact absurd (List.dropWhile_eq_nil_iff.mp hfront) h
  | cons c tail => rfl

/-! ## Between two texts -/

/-- The lower-case form of a part of a text, between what precedes it (nearest first) and what
follows it. -/
def lowerBetween (before : List Char) : List Char → List Char → List Char
  | [], _ => []
  | c :: rest, after =>
    (if c = 'Σ' then [lowerSigma before (rest ++ after)] else lowerChar c) ++
      lowerBetween (c :: before) rest after

theorem lowerBetween_append (before part rest after : List Char) :
    lowerBetween before (part ++ rest) after =
      lowerBetween before part (rest ++ after) ++ lowerBetween (part.reverse ++ before) rest after := by
  induction part generalizing before with
  | nil => rfl
  | cons c part ih =>
    rw [List.cons_append, lowerBetween, lowerBetween, ih, List.reverse_cons, List.append_assoc,
      List.append_assoc, List.append_assoc, List.singleton_append]

theorem lowerAfter_eq (before text : List Char) :
    lowerAfter before text = lowerBetween before text [] := by
  induction text generalizing before with
  | nil => rfl
  | cons c rest ih => rw [lowerAfter, lowerBetween, ih, List.append_nil]

/-- A text is lower-cased part by part, each between the others. -/
theorem lower_append_append (before part after : List Char) :
    lower (before ++ (part ++ after)) =
      lowerBetween [] before (part ++ after) ++
        (lowerBetween before.reverse part after ++
          lowerBetween (part.reverse ++ before.reverse) after []) := by
  rw [lower, lowerAfter_eq, lowerBetween_append, lowerBetween_append, List.append_nil,
    List.append_nil, List.append_nil]

/-- The sigmas of a part of a text have the same forms between two texts as between two others. -/
def SameSigmas (before part after before' after' : List Char) : Prop :=
  ∀ p q, part = p ++ 'Σ' :: q →
    lowerSigma (p.reverse ++ before) (q ++ after) = lowerSigma (p.reverse ++ before') (q ++ after')

theorem sameSigmas_cons {c : Char} {before rest after before' after' : List Char} :
    SameSigmas before (c :: rest) after before' after' ↔
      (c = 'Σ' → lowerSigma before (rest ++ after) = lowerSigma before' (rest ++ after')) ∧
        SameSigmas (c :: before) rest after (c :: before') after' := by
  have hreverse (p around : List Char) : (c :: p).reverse ++ around = p.reverse ++ c :: around := by
    rw [List.reverse_cons, List.append_assoc, List.singleton_append]
  constructor
  · intro h
    refine ⟨?_, ?_⟩
    · rintro rfl
      exact h [] rest rfl
    · intro p q hsplit
      rw [← hreverse, ← hreverse]
      exact h (c :: p) q (congrArg (c :: ·) hsplit)
  · rintro ⟨hhere, hlater⟩ p q hsplit
    cases p with
    | nil =>
      cases hsplit
      exact hhere rfl
    | cons c' p =>
      cases hsplit
      rw [hreverse, hreverse]
      exact hlater p q rfl

/-- What stands around a part of a text matters for its sigmas only. -/
theorem lowerBetween_eq_iff {before part after before' after' : List Char} :
    lowerBetween before part after = lowerBetween before' part after' ↔
      SameSigmas before part after before' after' := by
  induction part generalizing before before' with
  | nil =>
    refine ⟨fun _ p q hsplit => ?_, fun _ => rfl⟩
    exact absurd hsplit.symm (List.append_ne_nil_of_right_ne_nil p (List.cons_ne_nil _ _))
  | cons c rest ih =>
    -- the form of a character has the same length everywhere
    have hlength : (if c = 'Σ' then [lowerSigma before (rest ++ after)] else lowerChar c).length =
        (if c = 'Σ' then [lowerSigma before' (rest ++ after')] else lowerChar c).length := by
      split_ifs <;> rfl
    have hhere : (if c = 'Σ' then [lowerSigma before (rest ++ after)] else lowerChar c) =
        (if c = 'Σ' then [lowerSigma before' (rest ++ after')] else lowerChar c) ↔
          (c = 'Σ' → lowerSigma before (rest ++ after) = lowerSigma before' (rest ++ after')) := by
      split_ifs with hsigma
      · simp [hsigma]
      · simp [hsigma]
    rw [sameSigmas_cons, ← ih, ← hhere, lowerBetween, lowerBetween]
    constructor
    · intro h
      exact List.append_inj h hlength
    · rintro ⟨hfirst, hrest⟩
      rw [hfirst, hrest]

/-- A text is lower-cased around each of its sigmas. -/
theorem lowerBetween_sigma (before p q after : List Char) :
    lowerBetween before (p ++ 'Σ' :: q) after =
      lowerBetween before p ('Σ' :: q ++ after) ++
        lowerSigma (p.reverse ++ before) (q ++ after) ::
          lowerBetween ('Σ' :: (p.reverse ++ before)) q after := by
  rw [lowerBetween_append, lowerBetween, if_pos rfl, List.singleton_append]

theorem sameSigmas_of_allIgnorable {part : List Char} (h : AllIgnorable part)
    (before after before' after' : List Char) : SameSigmas before part after before' after' := by
  rintro p q rfl
  exact absurd h (not_allIgnorable_append_sigma p q)

/-- What precedes a sigma does not matter behind it. -/
theorem sameSigmas_behind_sigma (front part before after : List Char) :
    SameSigmas ('Σ' :: (front ++ before)) part after ('Σ' :: front) after := by
  intro p q hsplit
  have happend : p.reverse ++ 'Σ' :: (front ++ before) = (p.reverse ++ 'Σ' :: front) ++ before := by
    rw [List.append_assoc, List.cons_append]
  unfold lowerSigma
  rw [happend, meetsCased_append_of_not_allIgnorable (not_allIgnorable_append_sigma _ _)]

/-- What follows a sigma does not matter in front of it. -/
theorem sameSigmas_before_sigma (back part before after : List Char) :
    SameSigmas before part ('Σ' :: back ++ after) before ('Σ' :: back) := by
  intro p q hsplit
  unfold lowerSigma
  rw [← List.append_assoc,
    meetsCased_append_of_not_allIgnorable (not_allIgnorable_append_sigma _ _)]

/-! ## Open sigmas -/

/-- A sigma keeps its form in longer texts if what precedes it meets something else than
case-ignorable characters or what follows it meets a cased one, and the other way round. -/
theorem lowerSigma_append {p q : List Char} (hfront : AllIgnorable p → meetsCased q = true)
    (hback : meetsCased p = true → ¬ AllIgnorable q) (before after : List Char) :
    lowerSigma (p ++ before) (q ++ after) = lowerSigma p q := by
  unfold lowerSigma
  by_cases hp : AllIgnorable p
  · have hq : ¬ AllIgnorable q := by
      intro hq
      have hcased := hfront hp
      rw [meetsCased_of_allIgnorable hq] at hcased
      cases hcased
    rw [meetsCased_append_of_not_allIgnorable hq, hfront hp, Bool.not_true, Bool.and_false,
      Bool.and_false]
  · rw [meetsCased_append_of_not_allIgnorable hp]
    cases hcased : meetsCased p with
    | false => rfl
    | true => rw [meetsCased_append_of_not_allIgnorable (hback hcased)]

/-- A text has a capital sigma of which the form depends on the text around: it is the first letter
of a word, as far as can be seen, and no letter follows it, or it follows a letter and ends the
text, but for case-ignorable characters. -/
def HasOpenSigma (text : List Char) : Prop :=
  ∃ p q, text = p ++ 'Σ' :: q ∧
    (AllIgnorable p ∧ meetsCased q = false ∨ meetsCased p.reverse = true ∧ AllIgnorable q)

/-- Without an open sigma a text has the same form everywhere. -/
theorem sameSigmas_of_not_hasOpenSigma {part : List Char} (h : ¬ HasOpenSigma part)
    (before after : List Char) : SameSigmas before part after [] [] := by
  intro p q hsplit
  rw [List.append_nil, List.append_nil]
  refine lowerSigma_append ?_ ?_ before after
  · intro hp
    rw [allIgnorable_reverse] at hp
    by_contra hcased
    rw [Bool.not_eq_true] at hcased
    exact h ⟨p, q, hsplit, Or.inl ⟨hp, hcased⟩⟩
  · intro hcased hq
    exact h ⟨p, q, hsplit, Or.inr ⟨hcased, hq⟩⟩

/-- A part of a text that keeps its sigmas occurs in lower case. -/
theorem lower_isInfix {before part after : List Char}
    (h : SameSigmas before.reverse part after [] []) :
    lower part <:+: lower (before ++ (part ++ after)) := by
  have hpart : lower part = lowerBetween before.reverse part after := by
    rw [lower, lowerAfter_eq]
    exact (lowerBetween_eq_iff.mpr h).symm
  rw [lower_append_append, hpart, ← List.append_assoc]
  exact List.infix_append _ _ _

/-- A text with one character exchanged does not hold it any more, unless the character stands
around it. -/
theorem not_isInfix_of_exchanged {c c' : Char} (front back left right : List Char) (hne : c' ≠ c)
    (hleft : c ∉ left) (hright : c ∉ right) :
    ¬ front ++ c :: back <:+: left ++ (front ++ c' :: back) ++ right := by
  intro h
  have hcount := h.sublist.count_le c
  rw [List.count_append, List.count_append, List.count_append, List.count_append,
    List.count_cons_self, List.count_cons_of_ne hne, List.count_eq_zero_of_not_mem hleft,
    List.count_eq_zero_of_not_mem hright] at hcount
  omega

/-- A text is missed between two others that exchange the form of one of its sigmas alone, unless
the form that it had stands around it. -/
theorem not_isInfix_of_lowerSigma_ne {before p q after : List Char}
    (hfront : SameSigmas before.reverse p ('Σ' :: q ++ after) [] ('Σ' :: q))
    (hback : SameSigmas ('Σ' :: (p.reverse ++ before.reverse)) q after ('Σ' :: p.reverse) [])
    (hne : lowerSigma (p.reverse ++ before.reverse) (q ++ after) ≠ lowerSigma p.reverse q)
    (hleft : lowerSigma p.reverse q ∉ lowerBetween [] before (p ++ 'Σ' :: q ++ after))
    (hright : lowerSigma p.reverse q ∉
      lowerBetween ((p ++ 'Σ' :: q).reverse ++ before.reverse) after []) :
    ¬ lower (p ++ 'Σ' :: q) <:+: lower (before ++ (p ++ 'Σ' :: q ++ after)) := by
  have halone : lower (p ++ 'Σ' :: q) = lowerBetween [] p ('Σ' :: q) ++
      lowerSigma p.reverse q :: lowerBetween ('Σ' :: p.reverse) q [] := by
    rw [lower, lowerAfter_eq, lowerBetween_sigma, List.append_nil, List.append_nil, List.append_nil]
  rw [halone, lower_append_append, lowerBetween_sigma, lowerBetween_eq_iff.mpr hfront,
    lowerBetween_eq_iff.mpr hback, ← List.append_assoc]
  exact not_isInfix_of_exchanged _ _ _ _ hne hleft hright

/-- A letter that is lower-cased to itself. -/
theorem lowerBetween_alpha (before after : List Char) : lowerBetween before ['α'] after = ['α'] := by
  have halpha : lowerChar 'α' = ['α'] := by decide +kernel
  rw [lowerBetween, if_neg (by decide), halpha]
  rfl

theorem meetsCased_alpha : meetsCased ['α'] = true := by decide +kernel

/-- A text that begins with an open sigma is missed behind a letter. -/
theorem not_isInfix_behind_letter {p q : List Char} (hp : AllIgnorable p) (hq : meetsCased q = false) :
    ¬ lower (p ++ 'Σ' :: q) <:+: lower (['α'] ++ (p ++ 'Σ' :: q ++ [])) := by
  have hp' : AllIgnorable p.reverse := allIgnorable_reverse.mpr hp
  have halone : lowerSigma p.reverse q = 'σ' := by
    unfold lowerSigma
    rw [meetsCased_of_allIgnorable hp']
    rfl
  have hbehind : lowerSigma (p.reverse ++ ['α']) (q ++ []) = 'ς' := by
    unfold lowerSigma
    rw [meetsCased_append_of_allIgnorable hp', meetsCased_alpha, List.append_nil, hq]
    rfl
  refine not_isInfix_of_lowerSigma_ne (sameSigmas_of_allIgnorable hp _ _ _ _)
    (sameSigmas_behind_sigma p.reverse q ['α'] []) ?_ ?_ ?_
  · rw [halone, List.reverse_singleton, hbehind]
    decide
  · rw [halone, lowerBetween_alpha]
    decide
  · exact List.not_mem_nil

/-- A text that ends with an open sigma is missed in front of a letter. -/
theorem not_isInfix_before_letter {p q : List Char} (hp : meetsCased p.reverse = true)
    (hq : AllIgnorable q) :
    ¬ lower (p ++ 'Σ' :: q) <:+: lower ([] ++ (p ++ 'Σ' :: q ++ ['α'])) := by
  have halone : lowerSigma p.reverse q = 'ς' := by
    unfold lowerSigma
    rw [hp, meetsCased_of_allIgnorable hq]
    rfl
  have hbefore : lowerSigma (p.reverse ++ []) (q ++ ['α']) = 'σ' := by
    unfold lowerSigma
    rw [meetsCased_append_of_allIgnorable hq, meetsCased_alpha, Bool.not_true, Bool.and_false]
    rfl
  refine not_isInfix_of_lowerSigma_ne (sameSigmas_before_sigma q p [] ['α'])
    (sameSigmas_of_allIgnorable hq _ _ _ _) ?_ ?_ ?_
  · rw [halone, List.reverse_nil, hbefore]
    decide
  · exact List.not_mem_nil
  · rw [halone, lowerBetween_alpha]
    decide

/-- A text occurs in lower case wherever it occurs as it is, unless it has an open sigma. -/
theorem lower_isInfix_iff {part : List Char} :
    (∀ before after, lower part <:+: lower (before ++ (part ++ after))) ↔ ¬ HasOpenSigma part := by
  constructor
  · rintro h ⟨p, q, rfl, ⟨hp, hq⟩ | ⟨hp, hq⟩⟩
    · exact not_isInfix_behind_letter hp hq (h _ _)
    · exact not_isInfix_before_letter hp hq (h _ _)
  · intro h before after
    exact lower_isInfix (sameSigmas_of_not_hasOpenSigma h before.reverse after)

end TradingRules.Text
