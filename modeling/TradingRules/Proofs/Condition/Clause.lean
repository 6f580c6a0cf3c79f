/-
# Clauses and the marks between them

A clause that is accepted on its own holds no connective, not even a part of one at its ends: it
cannot begin like the word of a connective or end like one. So when clauses are joined, the marks
between them are the only ones, and cutting the joined text passes over every clause.
-/
import TradingRules.Condition.Parser
import TradingRules.Proofs.Except
import TradingRules.Proofs.Expression.Ends
import TradingRules.Proofs.Text.Search

namespace TradingRules.Condition

open TradingRules.Text
open TradingRules.Expression (HasEnds Opens Closes)

/-! ## Marks -/

/-- The word of a connective has no blank in it. -/
theorem blank_notMem_word (k : Connective) : ' ' ∉ k.word.toList := by
  cases k <;> decide

/-- The word of a connective begins with no character with which an expression may begin. -/
theorem exists_head?_word (k : Connective) :
    ∃ c, k.word.toList.head? = some c ∧ isBlank c = false ∧ ¬ Opens c := by
  cases k with
  | and => exact ⟨'a', rfl, by decide, by rintro (h | h) <;> revert h <;> decide⟩
  | or => exact ⟨'o', rfl, by decide, by rintro (h | h) <;> revert h <;> decide⟩

/-- The word of a connective ends with no character with which an expression may end. -/
theorem exists_getLast?_word (k : Connective) :
    ∃ c, k.word.toList.getLast? = some c ∧ isBlank c = false ∧ ¬ Closes c := by
  cases k with
  | and => exact ⟨'d', rfl, by decide, by rintro (h | h) <;> revert h <;> decide⟩
  | or => exact ⟨'r', rfl, by decide, by rintro (h | h) <;> revert h <;> decide⟩

/-- A mark that begins in one text and ends in the next, which begins with a blank if at all, has all
but its last blank in the first text. -/
theorem eq_of_mark_isPrefix {k : Connective} {s rest : List Char} (hs : s ≠ [])
    (hrest : ∀ c, rest.head? = some c → c = ' ') (h : mark k <+: s ++ rest) (hnot : ¬ mark k <+: s) :
    s = ' ' :: k.word.toList := by
  rcases List.prefix_or_prefix_of_prefix h (List.prefix_append s rest) with hs' | ⟨v, hv⟩
  · exact absurd hs' hnot
  · -- the mark goes on in the next text with `v`, which therefore begins with a blank
    rw [← hv, List.prefix_append_right_inj] at h
    cases v with
    | nil => exact absurd ⟨[], by rw [← hv, List.append_nil, List.append_nil]⟩ hnot
    | cons c v =>
      obtain ⟨tail, htail⟩ := h
      have hc : c = ' ' := hrest c (by rw [← htail]; rfl)
      subst hc
      cases s with
      | nil => exact absurd rfl hs
      | cons c s =>
        rw [mark, List.cons_append, List.cons_append, List.cons.injEq] at hv
        obtain ⟨rfl, hv⟩ := hv
        rcases List.append_eq_append_iff.mp hv with ⟨a, ha, hva⟩ | ⟨a, ha, hva⟩
        · cases a with
          | nil => rw [ha, List.append_nil]
          | cons c' a =>
            cases hva
            exact absurd (ha ▸ List.mem_append_right _ List.mem_cons_self) (blank_notMem_word k)
        · cases a with
          | nil => rw [ha, List.append_nil]
          | cons c' a =>
            have := congrArg List.length hva
            simp at this

/-! ## Accepted clauses -/

/-- Blanks around a condition do not matter. -/
theorem parse_trim (text : List Char) : parse (trim text) = parse text := by
  rw [parse, trim_trim, parse]

/-- A condition without connectives. -/
def IsLeaf : Condition → Prop
  | .join .. => False
  | .compare .. => True
  | .holds _ => True

/-- A comparison is cut at a comparison character that is not the first one, and its symbol is the
whole row of such characters. -/
theorem splitComparison_eq_some {clause left symbol right : List Char}
    (h : splitComparison clause = some (left, symbol, right)) :
    ∃ first before c tail, clause = first :: before ++ c :: tail ∧ isComparisonChar c = true ∧
      left = trim (first :: before) ∧ symbol = (c :: tail).takeWhile isComparisonChar ∧
      right = trim ((c :: tail).dropWhile isComparisonChar) ∧ right ≠ [] := by
  cases clause with
  | nil => cases h
  | cons first rest =>
    rw [splitComparison] at h
    split at h
    · cases h
    · rename_i before tail htail
      simp only at h
      split_ifs at h with hempty
      cases h
      obtain ⟨hrest, -, c, tail, rfl, hc⟩ := takeUntil_eq_some_iff.mp htail
      rw [List.isEmpty_iff] at hempty
      exact ⟨first, before, c, tail, by rw [hrest, List.cons_append], hc, rfl, rfl, rfl, hempty⟩

/-- A comparison begins as its left side does and ends as its right side does. -/
theorem hasEnds_of_splitComparison {clause left symbol right : List Char} (htrim : IsTrimmed clause)
    (h : splitComparison clause = some (left, symbol, right)) (hleft : HasEnds (trim left))
    (hright : HasEnds (trim right)) : HasEnds clause := by
  obtain ⟨first, before, c, tail, rfl, -, rfl, -, rfl, hne⟩ := splitComparison_eq_some h
  constructor
  · -- the first character is no blank, so it is also the first one of the left side
    have hfirst : isBlank first = false := htrim.1 first rfl
    have hhead : (first :: before).head? = some first := rfl
    obtain ⟨d, hd, hopens⟩ := hleft.1
    rw [trim_trim, head?_trim hhead hfirst] at hd
    cases hd
    exact ⟨first, rfl, hopens⟩
  · obtain ⟨d, hd, hcloses⟩ := hright.2
    rw [trim_trim] at hd
    have hne' : (c :: tail).dropWhile isComparisonChar ≠ [] := fun hnil => hne (by rw [hnil]; rfl)
    obtain ⟨front, hfront⟩ := List.dropWhile_suffix isComparisonChar (l := c :: tail)
    have hlast : (first :: before ++ c :: tail).getLast? =
        ((c :: tail).dropWhile isComparisonChar).getLast? := by
      rw [List.getLast?_append_of_ne_nil _ (List.cons_ne_nil c tail), ← hfront,
        List.getLast?_append_of_ne_nil _ hne', hfront]
    obtain ⟨last, hl⟩ : ∃ last, ((c :: tail).dropWhile isComparisonChar).getLast? = some last :=
      ⟨_, List.getLast?_eq_some_getLast hne'⟩
    have hblank : isBlank last = false := htrim.2 last (hlast.trans hl)
    rw [getLast?_trim hl hblank] at hd
    cases hd
    exact ⟨_, hlast.trans hl, hcloses⟩

/-- A clause is read as a leaf in one of two ways: it is cut at a comparison whose sides are accepted
expressions, or it is no comparison and an accepted expression as a whole. -/
theorem leaf_eq_ok {clause : List Char} {c : Condition} (h : leaf clause = .ok c) :
    (∃ left symbol right k l r, splitComparison clause = some (left, symbol, right) ∧
      Comparison.ofSymbol? (String.ofList symbol) = some k ∧ Expression.parse left = .ok l ∧
      Expression.parse right = .ok r ∧ c = .compare l k r) ∨
    (splitComparison clause = none ∧ ∃ e, Expression.parse clause = .ok e ∧ c = .holds e) := by
  unfold leaf at h
  split at h
  · rename_i left symbol right hsplit
    split at h
    · cases h
    · rename_i k hsymbol
      obtain ⟨l, hl, h⟩ := bind_eq_ok_iff.mp h
      obtain ⟨r, hr, h⟩ := bind_eq_ok_iff.mp h
      cases h
      exact Or.inl ⟨left, symbol, right, k, l, r, hsplit, hsymbol, hl, hr, rfl⟩
  · rename_i hsplit
    obtain ⟨e, he, h⟩ := bind_eq_ok_iff.mp h
    cases h
    exact Or.inr ⟨hsplit, e, he, rfl⟩

/-- An accepted clause without connectives begins and ends as an expression does. -/
theorem hasEnds_of_leaf {clause : List Char} {c : Condition} (htrim : IsTrimmed clause)
    (h : leaf clause = .ok c) : HasEnds clause := by
  rcases leaf_eq_ok h with ⟨left, symbol, right, k, l, r, hsplit, -, hl, hr, -⟩ | ⟨-, e, he, -⟩
  · exact hasEnds_of_splitComparison htrim hsplit (Expression.hasEnds_of_parse hl)
      (Expression.hasEnds_of_parse hr)
  · exact trim_eq_self htrim ▸ Expression.hasEnds_of_parse he

/-- A clause that can be told from the marks around it when it is joined to others. -/
structure IsApart (clause : List Char) : Prop where
  not_allBlank : ¬ AllBlank clause
  exists_head? : ∃ c, clause.head? = some c ∧ ∀ k : Connective, k.word.toList.head? ≠ some c
  not_isInfix : ∀ k : Connective, ¬ mark k <:+: clause
  not_isSuffix : ∀ k : Connective, ¬ ' ' :: k.word.toList <:+ clause

/-- A clause that begins with a connective does not begin as an expression does. -/
theorem not_opens_of_isPrefix {clause : List Char} {k : Connective} (h : k.word.toList <+: clause)
    (hends : HasEnds (trim clause)) : False := by
  obtain ⟨c, hc, hblank, hopens⟩ := exists_head?_word k
  obtain ⟨tail, rfl⟩ := h
  have hhead : (k.word.toList ++ tail).head? = some c := by
    rw [List.head?_append, hc]
    rfl
  obtain ⟨d, hd, hd'⟩ := hends.1
  rw [head?_trim hhead hblank] at hd
  cases hd
  exact hopens hd'

/-- A clause that ends with a connective does not end as an expression does. -/
theorem not_closes_of_isSuffix {clause : List Char} {k : Connective} (h : k.word.toList <:+ clause)
    (hends : HasEnds (trim clause)) : False := by
  obtain ⟨c, hc, hblank, hcloses⟩ := exists_getLast?_word k
  obtain ⟨front, rfl⟩ := h
  have hlast : (front ++ k.word.toList).getLast? = some c := by
    rw [List.getLast?_append, hc]
    rfl
  obtain ⟨d, hd, hd'⟩ := hends.2
  rw [getLast?_trim hlast hblank] at hd
  cases hd
  exact hcloses hd'

/-- A text that begins and ends as an expression does is not blank. -/
theorem not_allBlank_of_hasEnds {text : List Char} (hends : HasEnds (trim text)) :
    ¬ AllBlank text := by
  intro hblank
  obtain ⟨c, hc, -⟩ := hends.1
  rw [trim_eq_nil_iff.mpr hblank] at hc
  cases hc

/-- A mark in such a text has more than blanks on either side. -/
theorem not_allBlank_beside_mark {left right : List Char} {k : Connective}
    (hends : HasEnds (trim (left ++ mark k ++ right))) : ¬ AllBlank left ∧ ¬ AllBlank right := by
  constructor
  · -- trimming would cut into the mark from the front, so that its word comes first
    intro hleft
    have hsplit : left ++ mark k ++ right =
        (left ++ [' ']) ++ (k.word.toList ++ ' ' :: right) ++ [] := by
      simp [mark]
    rw [hsplit, trim_append_append _ (hleft.append (by decide)) AllBlank.nil] at hends
    exact not_opens_of_isPrefix (List.prefix_append _ _) hends
  · -- trimming would cut into the mark from the back, so that its word comes last
    intro hright
    have hblank : AllBlank [' '] := by decide
    have hsplit : left ++ mark k ++ right =
        [] ++ (left ++ ' ' :: k.word.toList) ++ ([' '] ++ right) := by
      simp [mark]
    rw [hsplit, trim_append_append _ AllBlank.nil (hblank.append hright)] at hends
    refine not_closes_of_isSuffix (k := k) ?_ hends
    exact (List.suffix_cons _ _).trans (List.suffix_append _ _)

/-- A clause is apart if it holds no mark after trimming and has the ends of an expression then. -/
theorem isApart_of_trim {clause : List Char} (hends : HasEnds (trim clause))
    (hmarks : ∀ k : Connective, ¬ mark k <:+: trim clause) : IsApart clause := by
  have hblank : ¬ AllBlank clause := not_allBlank_of_hasEnds hends
  refine ⟨hblank, ?_, fun k => ?_, fun k h => ?_⟩
  · cases clause with
    | nil => exact absurd AllBlank.nil hblank
    | cons c rest =>
      refine ⟨c, rfl, fun k hk => ?_⟩
      obtain ⟨d, hd, hblank, hopens⟩ := exists_head?_word k
      rw [hd] at hk
      cases hk
      -- the word of a connective begins with no blank, so trimming leaves its first letter
      obtain ⟨d', hd', hd''⟩ := hends.1
      rw [head?_trim rfl hblank] at hd'
      cases hd'
      exact hopens hd''
  · rintro ⟨x, y, rfl⟩
    obtain ⟨hx, hy⟩ := not_allBlank_beside_mark hends
    rw [trim_append_of_not_allBlank hx hy] at hmarks
    exact hmarks k ⟨trimStart x, trimEnd y, rfl⟩
  · exact not_closes_of_isSuffix ((List.suffix_cons _ _).trans h) hends

/-- A clause is cut nowhere exactly if it holds no mark. -/
theorem splitJoin_eq_none_iff {clause : List Char} :
    splitJoin clause = none ↔ ∀ k : Connective, ¬ mark k <:+: clause := by
  unfold splitJoin
  constructor
  · intro h k
    cases hand : cutAt (mark .and) clause with
    | some parts =>
      rw [hand] at h
      cases h
    | none =>
      rw [hand] at h
      have hor : cutAt (mark .or) clause = none := by
        simpa using h
      cases k with
      | and => exact cutAt_eq_none_iff.mp hand
      | or => exact cutAt_eq_none_iff.mp hor
  · intro h
    rw [cutAt_eq_none_iff.mpr (h .and), cutAt_eq_none_iff.mpr (h .or)]
    rfl

/-- A clause accepted on its own is read by `leaf` and holds no mark, after trimming. -/
theorem leaf_of_parse {clause : List Char} {c : Condition} (h : parse clause = .ok c)
    (hc : c.IsLeaf) : leaf (trim clause) = .ok c ∧ splitJoin (trim clause) = none := by
  unfold parse at h
  rw [parseWithin, if_neg (by decide)] at h
  split_ifs at h
  split at h
  · -- a clause with a connective is not read as one without
    rename_i k left right hsplit
    obtain ⟨l, -, h⟩ := bind_eq_ok_iff.mp h
    obtain ⟨r, -, h⟩ := bind_eq_ok_iff.mp h
    cases h
    exact hc.elim
  · rename_i hsplit
    exact ⟨h, hsplit⟩

/-- Within the limit, a clause that is not cut is read by `leaf`. -/
theorem parseWithin_eq_leaf {clause : List Char} {depth : Nat} (hdepth : depth ≤ maxNesting)
    (hne : clause ≠ []) (hsplit : splitJoin clause = none) :
    parseWithin depth clause = leaf clause := by
  rw [parseWithin, if_neg (Nat.not_lt.mpr hdepth), if_neg (mt List.isEmpty_iff.mp hne)]
  split
  · rename_i k left right hcut
    rw [hsplit] at hcut
    cases hcut
  · rfl

/-- Within the limit, a clause that is cut is read by reading both sides. -/
theorem parseWithin_eq_join {clause left right : List Char} {k : Connective} {depth : Nat}
    (hdepth : depth ≤ maxNesting) (hsplit : splitJoin clause = some (k, left, right)) :
    parseWithin depth clause = (do
      let l ← parseWithin (depth + 1) (trim left)
      let r ← parseWithin (depth + 1) (trim right)
      return .join k l r) := by
  have hne : clause ≠ [] := by
    rintro rfl
    have hnil : splitJoin [] = none := by decide
    rw [hnil] at hsplit
    cases hsplit
  rw [parseWithin, if_neg (Nat.not_lt.mpr hdepth), if_neg (mt List.isEmpty_iff.mp hne)]
  split
  · rename_i k' left' right' hcut
    rw [hsplit] at hcut
    cases hcut
    rfl
  · rename_i hcut
    rw [hsplit] at hcut
    cases hcut

/-- A clause that holds no mark is read by `leaf`, at any depth within the limit. -/
theorem parseWithin_of_splitJoin_eq_none {clause : List Char} {depth : Nat}
    (hdepth : depth ≤ maxNesting) (hblank : ¬ AllBlank clause)
    (hsplit : splitJoin (trim clause) = none) : parseWithin depth (trim clause) = leaf (trim clause) :=
  parseWithin_eq_leaf hdepth (mt trim_eq_nil_iff.mp hblank) hsplit

/-- A clause that is accepted as one without connectives is apart. -/
theorem isApart_of_parse {clause : List Char} {c : Condition} (h : parse clause = .ok c)
    (hc : c.IsLeaf) : IsApart clause := by
  obtain ⟨hleaf, hsplit⟩ := leaf_of_parse h hc
  exact isApart_of_trim (hasEnds_of_leaf (isTrimmed_trim clause) hleaf)
    (splitJoin_eq_none_iff.mp hsplit)

end TradingRules.Condition
