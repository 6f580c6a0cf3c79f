/-
# Well-formed conditions

The tree of a condition is shaped by the order in which its clause is cut. The first `and` is cut at
first, so none is left of it; an `or` is cut at only where no `and` is left, and the first one first,
so what stands left of it has no connective at all. The texts of signals stand in the clauses between
the connectives, and hold none themselves.
-/
import TradingRules.Proofs.Condition.Precedence
import TradingRules.Proofs.Expression.Reading

namespace TradingRules

open TradingRules.Text

namespace Text

/-- What is cut off in front of a mark holds no mark. -/
theorem not_isInfix_of_cutAt {mark text left right : List Char} (hmark : mark ≠ [])
    (h : cutAt mark text = some (left, right)) : ¬ mark <:+: left := by
  rintro ⟨front, back, rfl⟩
  obtain ⟨-, hfirst⟩ := cutAt_eq_some_iff.mp h
  have hsuffix : mark ++ back <:+ front ++ mark ++ back := ⟨front, by rw [List.append_assoc]⟩
  refine hfirst (mark ++ back) hsuffix (List.append_ne_nil_of_left_ne_nil hmark back) ?_
  rw [List.append_assoc]
  exact List.prefix_append mark _

end Text

namespace Condition

/-! ## What stands in a condition -/

/-- The connectives in a condition. -/
def connectives : Condition → List Connective
  | .join k left right => k :: (left.connectives ++ right.connectives)
  | .compare .. => []
  | .holds _ => []

/-- The expressions in a condition. -/
def expressions : Condition → List Expression
  | .join _ left right => left.expressions ++ right.expressions
  | .compare left _ right => [left, right]
  | .holds e => [e]

/-- The conditions that stand in a condition, itself included. -/
def parts : Condition → List Condition
  | .join k left right => .join k left right :: (left.parts ++ right.parts)
  | .compare left c right => [.compare left c right]
  | .holds e => [.holds e]

theorem IsLeaf.connectives_eq_nil {c : Condition} (h : c.IsLeaf) : c.connectives = [] := by
  cases c with
  | join => exact h.elim
  | compare => rfl
  | holds => rfl

theorem IsLeaf.parts_eq {c : Condition} (h : c.IsLeaf) : c.parts = [c] := by
  cases c with
  | join => exact h.elim
  | compare => rfl
  | holds => rfl

/-! ## Leaves -/

/-- Both sides of a comparison stand in its clause. -/
theorem isInfix_of_splitComparison {clause left symbol right : List Char}
    (h : splitComparison clause = some (left, symbol, right)) :
    left <:+: clause ∧ right <:+: clause := by
  obtain ⟨first, before, c, tail, rfl, -, rfl, -, rfl, -⟩ := splitComparison_eq_some h
  constructor
  · exact (trim_isInfix _).trans (List.prefix_append _ _).isInfix
  · have hright : (c :: tail).dropWhile isComparisonChar <:+ first :: before ++ c :: tail :=
      (List.dropWhile_suffix _).trans (List.suffix_append _ _)
    exact (trim_isInfix _).trans hright.isInfix

/-- A clause without connectives is read as a condition without connectives, and every expression in
it is read off a part of the clause. -/
theorem isLeaf_of_leaf {clause : List Char} {c : Condition} (h : leaf clause = .ok c) :
    c.IsLeaf ∧ ∀ e ∈ c.expressions, ∃ part, part <:+: clause ∧ Expression.parse part = .ok e := by
  rcases leaf_eq_ok h with ⟨left, symbol, right, k, l, r, hsplit, -, hl, hr, rfl⟩ | ⟨-, e, he, rfl⟩
  · obtain ⟨hleft, hright⟩ := isInfix_of_splitComparison hsplit
    refine ⟨trivial, fun e he => ?_⟩
    rcases List.mem_pair.mp he with rfl | rfl
    · exact ⟨left, hleft, hl⟩
    · exact ⟨right, hright, hr⟩
  · refine ⟨trivial, fun e' he' => ?_⟩
    cases List.mem_singleton.mp he'
    exact ⟨clause, List.infix_rfl, he⟩

/-! ## How a clause is read -/

/-- A clause is read as a condition inside a number of connectives: it has no connective and is read
as a leaf, or it is cut at one and its sides are read. -/
inductive ReadWithin : Nat → List Char → Condition → Prop
  | leaf {depth : Nat} {clause : List Char} {c : Condition} (hdepth : depth ≤ maxNesting)
      (hsplit : splitJoin clause = none) (hleaf : leaf clause = .ok c) : ReadWithin depth clause c
  | join {depth : Nat} {clause left right : List Char} {k : Connective} {l r : Condition}
      (hdepth : depth ≤ maxNesting) (hsplit : splitJoin clause = some (k, left, right))
      (hl : ReadWithin (depth + 1) (trim left) l) (hr : ReadWithin (depth + 1) (trim right) r) :
      ReadWithin depth clause (.join k l r)

/-- An accepted clause is read in one of the two ways, and so are its sides. -/
theorem readWithin_of_parseWithin {depth : Nat} {clause : List Char} {c : Condition}
    (h : parseWithin depth clause = .ok c) : ReadWithin depth clause c := by
  induction depth, clause using parseWithin.induct generalizing c with
  | case1 depth clause hdeep =>
    rw [parseWithin, if_pos hdeep] at h
    cases h
  | case2 depth clause hdeep hempty =>
    rw [parseWithin, if_neg hdeep, if_pos hempty] at h
    cases h
  | case3 depth clause hdeep hempty k left right hsplit ihl ihr =>
    have hdepth : depth ≤ maxNesting := Nat.le_of_not_lt hdeep
    rw [parseWithin_eq_join hdepth hsplit] at h
    obtain ⟨l, hl, h⟩ := bind_eq_ok_iff.mp h
    obtain ⟨r, hr, h⟩ := bind_eq_ok_iff.mp h
    cases h
    exact .join hdepth hsplit (ihl hl) (ihr hr)
  | case4 depth clause hdeep hempty hsplit =>
    have hdepth : depth ≤ maxNesting := Nat.le_of_not_lt hdeep
    rw [parseWithin_eq_leaf hdepth (mt List.isEmpty_iff.mpr hempty) hsplit] at h
    exact .leaf hdepth hsplit h

/-- A clause is cut at a mark that does not occur in front of it, and at an `or` only if there is no
`and` anywhere. -/
theorem splitJoin_eq_some {clause left right : List Char} {k : Connective}
    (h : splitJoin clause = some (k, left, right)) :
    clause = left ++ (mark k ++ right) ∧ ¬ mark k <:+: left ∧
      (k = .or → ¬ mark .and <:+: clause) := by
  unfold splitJoin at h
  split at h
  · rename_i left' right' hand
    cases h
    exact ⟨(cutAt_eq_some_iff.mp hand).1, not_isInfix_of_cutAt (List.cons_ne_nil _ _) hand,
      fun hk => nomatch hk⟩
  · rename_i hand
    obtain ⟨⟨left', right'⟩, hor, heq⟩ := Option.map_eq_some_iff.mp h
    cases heq
    exact ⟨(cutAt_eq_some_iff.mp hor).1, not_isInfix_of_cutAt (List.cons_ne_nil _ _) hor,
      fun _ => cutAt_eq_none_iff.mp hand⟩

/-- What is read on either side of a connective stands in the clause. -/
theorem isInfix_of_splitJoin {clause left right : List Char} {k : Connective}
    (h : splitJoin clause = some (k, left, right)) :
    trim left <:+: clause ∧ mark k <:+: clause ∧ trim right <:+: clause := by
  obtain ⟨rfl, -, -⟩ := splitJoin_eq_some h
  refine ⟨?_, ?_, ?_⟩
  · exact (trim_isInfix left).trans (List.prefix_append _ _).isInfix
  · exact ⟨left, right, by rw [List.append_assoc]⟩
  · have hright : right <:+ left ++ (mark k ++ right) :=
      (List.suffix_append (mark k) right).trans (List.suffix_append left _)
    exact (trim_isInfix right).trans hright.isInfix

namespace ReadWithin

variable {depth : Nat} {clause : List Char} {c : Condition}

/-- No node lies deeper than the nesting limit. -/
theorem depth_le (h : ReadWithin depth clause c) {n : Nat} (hnode : HasNodeAt c n) :
    depth + n ≤ maxNesting := by
  induction h generalizing n with
  | leaf hdepth hsplit hleaf =>
    -- a condition without connectives has no node but its root
    cases hnode with
    | root => exact hdepth
    | left => exact (isLeaf_of_leaf hleaf).1.elim
    | right => exact (isLeaf_of_leaf hleaf).1.elim
  | join hdepth hsplit hl hr ihl ihr =>
    cases hnode with
    | root => exact hdepth
    | left hnode =>
      have := ihl hnode
      omega
    | right hnode =>
      have := ihr hnode
      omega

/-- Every connective of the condition stands in the clause. -/
theorem mark_isInfix (h : ReadWithin depth clause c) {k : Connective} (hk : k ∈ c.connectives) :
    mark k <:+: clause := by
  induction h with
  | leaf hdepth hsplit hleaf =>
    rw [(isLeaf_of_leaf hleaf).1.connectives_eq_nil] at hk
    cases hk
  | join hdepth hsplit hl hr ihl ihr =>
    obtain ⟨hleft, hmark, hright⟩ := isInfix_of_splitJoin hsplit
    rcases List.mem_cons.mp hk with rfl | hk
    · exact hmark
    rcases List.mem_append.mp hk with hk | hk
    · exact (ihl hk).trans hleft
    · exact (ihr hk).trans hright

/-- Every expression of the condition is read off a part of the clause that holds no connective. -/
theorem exists_of_mem_expressions (h : ReadWithin depth clause c) {e : Expression}
    (he : e ∈ c.expressions) :
    ∃ part, part <:+: clause ∧ (∀ k, ¬ mark k <:+: part) ∧ Expression.parse part = .ok e := by
  induction h with
  | leaf hdepth hsplit hleaf =>
    obtain ⟨part, hpart, hparse⟩ := (isLeaf_of_leaf hleaf).2 e he
    exact ⟨part, hpart, fun k hk => splitJoin_eq_none_iff.mp hsplit k (hk.trans hpart), hparse⟩
  | join hdepth hsplit hl hr ihl ihr =>
    obtain ⟨hleft, -, hright⟩ := isInfix_of_splitJoin hsplit
    rcases List.mem_append.mp he with he | he
    · obtain ⟨part, hpart, hmarks, hparse⟩ := ihl he
      exact ⟨part, hpart.trans hleft, hmarks, hparse⟩
    · obtain ⟨part, hpart, hmarks, hparse⟩ := ihr he
      exact ⟨part, hpart.trans hright, hmarks, hparse⟩

/-- A clause without connectives is read as a leaf. -/
theorem isLeaf (h : ReadWithin depth clause c) (hmarks : ∀ k, ¬ mark k <:+: clause) : c.IsLeaf := by
  cases h with
  | leaf hdepth hsplit hleaf => exact (isLeaf_of_leaf hleaf).1
  | join hdepth hsplit hl hr => exact absurd (isInfix_of_splitJoin hsplit).2.1 (hmarks _)

end ReadWithin

/-! ## Well-formed conditions -/

/-- What may stand on the sides of a connective: left of an `and` there is no `and`, and an `or` has
a leaf on its left and no `and` on its right. -/
def IsPlaced : Connective → Condition → Condition → Prop
  | .and, left, _ => .and ∉ left.connectives
  | .or, left, right => left.IsLeaf ∧ .and ∉ right.connectives

/-- The sides of a clause are read as what may stand there. -/
theorem isPlaced_of_splitJoin {depth : Nat} {clause left right : List Char} {k : Connective}
    {l r : Condition} (h : splitJoin clause = some (k, left, right))
    (hl : ReadWithin depth (trim left) l) (hr : ReadWithin depth (trim right) r) :
    IsPlaced k l r := by
  obtain ⟨-, hfirst, hand⟩ := splitJoin_eq_some h
  obtain ⟨hleft, -, hright⟩ := isInfix_of_splitJoin h
  cases k with
  | and => exact fun hmem => hfirst ((hl.mark_isInfix hmem).trans (trim_isInfix left))
  | or =>
    constructor
    · refine hl.isLeaf fun k hk => ?_
      cases k with
      | and => exact hand rfl (hk.trans hleft)
      | or => exact hfirst (hk.trans (trim_isInfix left))
    · exact fun hmem => hand rfl ((hr.mark_isInfix hmem).trans hright)

/-- Every connective of the condition stands between what may stand on its sides. -/
theorem ReadWithin.isPlaced {depth : Nat} {clause : List Char} {c : Condition}
    (h : ReadWithin depth clause c) {k : Connective} {l r : Condition}
    (hpart : .join k l r ∈ c.parts) : IsPlaced k l r := by
  induction h with
  | leaf hdepth hsplit hleaf =>
    have hc := (isLeaf_of_leaf hleaf).1
    rw [hc.parts_eq, List.mem_singleton] at hpart
    rw [← hpart] at hc
    exact hc.elim
  | join hdepth hsplit hl hr ihl ihr =>
    rcases List.mem_cons.mp hpart with heq | hpart
    · cases heq
      exact isPlaced_of_splitJoin hsplit hl hr
    rcases List.mem_append.mp hpart with hpart | hpart
    · exact ihl hpart
    · exact ihr hpart

end Condition

/-- A text of a signal that a strategy can ask for: besides quotes it holds neither the brace that
opens a block nor a connective. -/
structure IsSignalText (text : List Char) : Prop extends IsQuotable text where
  no_brace : '\x7b' ∉ text
  no_mark : ∀ k, ¬ Condition.mark k <:+: text

/-- The bounds that hold for what an expression holds. -/
def Expression.WellFormed : Expression → Prop
  | .tweetContains text => IsSignalText text.toList
  | .volume => True
  | .price => True
  | .indicator i => 1 ≤ i.period.toNat ∧ i.period.toNat ≤ 2 ^ 64 - 1
  | .literal x => x.isFinite = true ∧ 0.0 ≤ x

/-- What is taken from a clause without braces and connectives is well formed. -/
theorem Expression.IsTakenFrom.wellFormed {clause : List Char} {e : Expression}
    (h : e.IsTakenFrom clause) (hbrace : '\x7b' ∉ clause)
    (hmarks : ∀ k, ¬ Condition.mark k <:+: clause) : e.WellFormed := by
  cases e with
  | tweetContains text =>
    obtain ⟨hquotable, htext⟩ := h
    exact { hquotable with
      no_brace := fun hmem => hbrace (htext.subset hmem)
      no_mark := fun k hk => hmarks k (hk.trans htext) }
  | volume => trivial
  | price => trivial
  | indicator i => exact h
  | literal x => exact h

namespace Condition

/-- The shape and the bounds of conditions that can be written. -/
structure WellFormed (c : Condition) : Prop where
  /-- No node lies deeper than the nesting limit. -/
  depth_le : ∀ depth, HasNodeAt c depth → depth ≤ maxNesting
  /-- No `and` stands below an `or`. -/
  below_or : ∀ left right, .join .or left right ∈ c.parts →
    .and ∉ left.connectives ∧ .and ∉ right.connectives
  /-- No `and` stands left of an `and`. -/
  left_of_and : ∀ left right, .join .and left right ∈ c.parts → .and ∉ left.connectives
  /-- No connective stands left of an `or`. -/
  left_of_or : ∀ left right, .join .or left right ∈ c.parts → left.IsLeaf
  expressions : ∀ e ∈ c.expressions, e.WellFormed

/-- An accepted condition is well formed if it holds no opening brace. -/
theorem wellFormed_of_parse {text : List Char} {c : Condition} (h : parse text = .ok c)
    (hbrace : '\x7b' ∉ text) : c.WellFormed := by
  have hread : ReadWithin 0 (trim text) c := readWithin_of_parseWithin h
  have hor (left right : Condition) (hpart : .join .or left right ∈ c.parts) :
      left.IsLeaf ∧ .and ∉ right.connectives :=
    hread.isPlaced (k := .or) hpart
  constructor
  case depth_le =>
    intro depth hnode
    have := hread.depth_le hnode
    omega
  case below_or =>
    intro left right hpart
    obtain ⟨hleaf, hright⟩ := hor left right hpart
    rw [hleaf.connectives_eq_nil]
    exact ⟨List.not_mem_nil, hright⟩
  case left_of_and => exact fun left right hpart => hread.isPlaced (k := .and) hpart
  case left_of_or => exact fun left right hpart => (hor left right hpart).1
  case expressions =>
    intro e he
    obtain ⟨part, hpart, hmarks, hparse⟩ := hread.exists_of_mem_expressions he
    refine (Expression.isTakenFrom_of_parse hparse).wellFormed (fun hmem => hbrace ?_) hmarks
    exact (hpart.trans (trim_isInfix text)).subset hmem

end Condition

end TradingRules
