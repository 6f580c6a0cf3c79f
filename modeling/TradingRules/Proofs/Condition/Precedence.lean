/-
# Precedence by position

A row of clauses that are accepted on their own is read as the tree that its connectives give it:
the row is cut at every `and`, the groups between are folded to the right with `or`, and these trees
are folded to the right with `and`. The nesting limit is exact: the row is read if no node of this
tree lies deeper than the limit, and refused for its nesting otherwise.

The proof goes by one induction for both connectives. Whatever is joined, clauses by `or` or groups
by `and`, each piece is read as a known tree at every depth, and the joined text is cut behind its
first piece.
-/
import TradingRules.Proofs.Condition.Clause

namespace TradingRules.Condition

open TradingRules.Text

/-! ## Rows and their trees -/

/-- A sequence that is not empty. -/
inductive Chain (α : Type) where
  | last (a : α)
  | cons (a : α) (rest : Chain α)

namespace Chain

variable {α β : Type}

/-- The chain of the values of a function. -/
def map (f : α → β) : Chain α → Chain β
  | last a => last (f a)
  | cons a rest => cons (f a) (rest.map f)

theorem map_map {γ : Type} (g : β → γ) (f : α → β) (chain : Chain α) :
    (chain.map f).map g = chain.map fun a => g (f a) := by
  induction chain with
  | last a => rfl
  | cons a rest ih =>
    rw [map, map, map, ih]

/-- Folds conditions to the right with a connective. -/
def joinRight (k : Connective) : Chain Condition → Condition
  | last c => c
  | cons c rest => .join k c (rest.joinRight k)

/-- The texts of a chain with a connective between neighbours. -/
def text (k : Connective) : Chain (List Char) → List Char
  | last t => t
  | cons t rest => t ++ (mark k ++ rest.text k)

end Chain

/-- A sequence that is not empty, with any connective between neighbours. -/
inductive Row (α : Type) where
  | last (a : α)
  | cons (a : α) (k : Connective) (rest : Row α)

namespace Row

variable {α β : Type}

/-- The row of the values of a function. -/
def map (f : α → β) : Row α → Row β
  | last a => last (f a)
  | cons a k rest => cons (f a) k (rest.map f)

/-- The texts of a row, joined by its connectives. -/
def text : Row (List Char) → List Char
  | last t => t
  | cons t k rest => t ++ (mark k ++ rest.text)

/-- The groups of a row, which is cut at every `and`. -/
def groups : Row α → Chain (Chain α)
  | last a => .last (.last a)
  | cons a .and rest => .cons (.last a) rest.groups
  | cons a .or rest =>
    match rest.groups with
    | .last group => .last (.cons a group)
    | .cons group more => .cons (.cons a group) more

/-- The groups of a row do not depend on what stands in it. -/
theorem groups_map (f : α → β) (row : Row α) :
    (row.map f).groups = row.groups.map fun group => group.map f := by
  induction row with
  | last a => rfl
  | cons a k rest ih =>
    rw [map]
    cases k with
    | and =>
      rw [groups, groups, ih]
      rfl
    | or =>
      rw [groups, groups, ih]
      cases rest.groups <;> rfl

/-- The tree of a row: every group is folded to the right with `or`, and then the groups are folded
to the right with `and`. -/
def tree (row : Row Condition) : Condition :=
  (row.groups.map (·.joinRight .or)).joinRight .and

end Row

/-- A clause that is accepted on its own, as a condition without connectives. -/
structure Clause where
  text : List Char
  condition : Condition
  parse_text : parse text = .ok condition
  isLeaf : condition.IsLeaf

theorem Clause.isApart (clause : Clause) : IsApart clause.text :=
  isApart_of_parse clause.parse_text clause.isLeaf

/-! ## How deep the nodes of a tree lie -/

/-- A condition has a node at a depth; its root lies at depth zero. -/
inductive HasNodeAt : Condition → Nat → Prop
  | root (c : Condition) : HasNodeAt c 0
  | left {k : Connective} {l r : Condition} {n : Nat} (h : HasNodeAt l n) :
      HasNodeAt (.join k l r) (n + 1)
  | right {k : Connective} {l r : Condition} {n : Nat} (h : HasNodeAt r n) :
      HasNodeAt (.join k l r) (n + 1)

/-- The depths of the nodes of a condition are those below its number of levels. -/
theorem hasNodeAt_iff {c : Condition} {n : Nat} : HasNodeAt c n ↔ n < c.levels := by
  constructor
  · intro h
    induction h with
    | root c => cases c <;> simp only [levels] <;> omega
    | left _ ih =>
      rw [levels]
      omega
    | right _ ih =>
      rw [levels]
      omega
  · intro h
    induction c generalizing n with
    | join k l r ihl ihr =>
      cases n with
      | zero => exact .root _
      | succ n =>
        rw [levels] at h
        by_cases hl : n < l.levels
        · exact .left (ihl hl)
        · exact .right (ihr (by omega))
    | compare l comparison r =>
      rw [levels, Nat.lt_one_iff] at h
      exact h ▸ .root _
    | holds e =>
      rw [levels, Nat.lt_one_iff] at h
      exact h ▸ .root _

/-! ## Reading a tree at a depth -/

/-- The answer to a text that stands for a known tree at a depth. -/
def within (depth : Nat) (c : Condition) : Except SyntaxError Condition :=
  if depth + c.levels ≤ maxNesting + 1 then .ok c else .error (.nestingLimit maxNesting)

/-- A text that stands for a known tree at whatever depth it is read. -/
def ReadsAs (text : List Char) (c : Condition) : Prop :=
  ∀ depth, parseWithin depth (trim text) = within depth c

theorem levels_pos (c : Condition) : 0 < c.levels := by
  cases c <;> simp only [levels] <;> omega

/-- A tree is refused at a depth if one of its sides is refused one level deeper. -/
theorem within_join (depth : Nat) (k : Connective) (l r : Condition) :
    within depth (.join k l r) = (do
      let left ← within (depth + 1) l
      let right ← within (depth + 1) r
      return .join k left right) := by
  unfold within
  rw [levels]
  by_cases hl : depth + 1 + l.levels ≤ maxNesting + 1
  · rw [if_pos hl]
    by_cases hr : depth + 1 + r.levels ≤ maxNesting + 1
    · rw [if_pos hr, if_pos (by omega)]
      rfl
    · rw [if_neg hr, if_neg (by omega)]
      rfl
  · rw [if_neg hl, if_neg (by omega)]
    rfl

/-- A clause stands for its condition. -/
theorem Clause.readsAs (clause : Clause) : ReadsAs clause.text clause.condition := by
  intro depth
  obtain ⟨hleaf, hsplit⟩ := leaf_of_parse clause.parse_text clause.isLeaf
  have hlevels : clause.condition.levels = 1 := by
    have := clause.isLeaf
    cases hc : clause.condition with
    | join k l r =>
      rw [hc] at this
      exact this.elim
    | compare l comparison r => rfl
    | holds e => rfl
  rw [within, hlevels]
  by_cases hdepth : depth ≤ maxNesting
  · rw [parseWithin_of_splitJoin_eq_none hdepth clause.isApart.not_allBlank hsplit,
      if_pos (by omega)]
    exact hleaf
  · rw [parseWithin, if_pos (by omega), if_neg (by omega)]

/-- A text is cut after trimming where it is cut before, if both sides hold more than blanks. -/
theorem splitJoin_trim {text left right : List Char} {k : Connective}
    (h : splitJoin text = some (k, left, right)) (hleft : ¬ AllBlank left)
    (hright : ¬ AllBlank right) :
    splitJoin (trim text) = some (k, trimStart left, trimEnd right) := by
  unfold splitJoin at h ⊢
  cases hand : cutAt (mark .and) text with
  | some parts =>
    rw [hand] at h
    cases h
    rw [cutAt_trim hand hleft hright]
  | none =>
    rw [hand] at h
    rw [cutAt_trim_eq_none hand]
    simp only [Option.map_eq_some_iff] at h
    obtain ⟨parts, hor, heq⟩ := h
    cases heq
    rw [cutAt_trim hor hleft hright]
    rfl

/-- A text that is cut into two texts stands for their trees, joined. -/
theorem ReadsAs.join {text left right : List Char} {k : Connective} {l r : Condition}
    (h : splitJoin text = some (k, left, right)) (hleft : ¬ AllBlank left)
    (hright : ¬ AllBlank right) (hl : ReadsAs left l) (hr : ReadsAs right r) :
    ReadsAs text (.join k l r) := by
  intro depth
  have hsplit := splitJoin_trim h hleft hright
  by_cases hdepth : depth ≤ maxNesting
  · rw [parseWithin_eq_join hdepth hsplit, within_join, trim_trimStart, trim_trimEnd, hl, hr]
  · have := levels_pos (.join k l r)
    rw [parseWithin, if_pos (by omega), within, if_neg (by omega)]

/-! ## Joined texts are cut at their own marks -/

/-- Cutting at a mark passes over a text, whatever follows it, if that begins with a blank. -/
def Passes (k : Connective) (front : List Char) : Prop :=
  ∀ rest, (∀ c, rest.head? = some c → c = ' ') →
    cutAt (mark k) (front ++ rest) = (cutAt (mark k) rest).map fun (l, r) => (front ++ l, r)

/-- A cut passes over a clause. -/
theorem Clause.passes (clause : Clause) (k : Connective) : Passes k clause.text := by
  intro rest hrest
  apply cutAt_append_of_not_isPrefix
  intro s hs hne hmark
  have hnot : ¬ mark k <+: s := by
    intro h
    exact clause.isApart.not_isInfix k (h.isInfix.trans hs.isInfix)
  rw [eq_of_mark_isPrefix hne hrest hmark hnot] at hs
  exact clause.isApart.not_isSuffix k hs

/-- A mark begins with a blank. -/
theorem head?_mark_append {k : Connective} {rest : List Char} (c : Char)
    (h : (mark k ++ rest).head? = some c) : c = ' ' := by
  cases h
  rfl

/-- A cut at `and` passes over an `or` that is followed by no word beginning like `and`. -/
theorem cutAt_and_mark_or {c : Char} {rest : List Char} (hhead : rest.head? = some c) (hc : c ≠ 'a') :
    cutAt (mark .and) (mark .or ++ rest) =
      (cutAt (mark .and) rest).map fun (l, r) => (mark .or ++ l, r) := by
  apply cutAt_append_of_not_isPrefix
  intro s hs hne hmark
  cases rest with
  | nil => cases hhead
  | cons c' rest =>
    cases hhead
    have hcases : s = mark .or ∨ s = ['o', 'r', ' '] ∨ s = ['r', ' '] ∨ s = [' '] := by
      simpa [mark, Connective.word, List.suffix_cons_iff, hne] using hs
    rcases hcases with rfl | rfl | rfl | rfl
    · exact absurd hmark (by simp [mark, Connective.word])
    · exact absurd hmark (by simp [mark, Connective.word])
    · exact absurd hmark (by simp [mark, Connective.word])
    · -- the blank behind the `or` begins an `and` only if the text goes on with its first letter
      simp only [mark, Connective.word, String.reduceToList, List.cons_append, List.nil_append,
        List.cons_prefix_cons] at hmark
      exact hc hmark.2.1.symm

/-- The text of a group of clauses. -/
def groupText (group : Chain Clause) : List Char :=
  (group.map Clause.text).text .or

/-- The tree of a group of clauses. -/
def groupTree (group : Chain Clause) : Condition :=
  (group.map Clause.condition).joinRight .or

/-- A group begins as no connective does. -/
theorem exists_head?_groupText (group : Chain Clause) :
    ∃ c, (groupText group).head? = some c ∧ ∀ k : Connective, k.word.toList.head? ≠ some c := by
  cases group with
  | last clause => exact clause.isApart.exists_head?
  | cons clause rest =>
    obtain ⟨c, hc, hword⟩ := clause.isApart.exists_head?
    refine ⟨c, ?_, hword⟩
    show (clause.text ++ _).head? = some c
    rw [List.head?_append, hc]
    rfl

/-- Joined pieces hold more than blanks if each of them does. -/
theorem Chain.not_allBlank_text {α : Type} {text : α → List Char} (h : ∀ a, ¬ AllBlank (text a))
    (k : Connective) (pieces : Chain α) : ¬ AllBlank ((pieces.map text).text k) := by
  cases pieces with
  | last a => exact h a
  | cons a rest =>
    intro hall
    exact h a fun c hc => hall c (List.mem_append_left _ hc)

theorem not_allBlank_groupText (group : Chain Clause) : ¬ AllBlank (groupText group) :=
  Chain.not_allBlank_text (fun clause => clause.isApart.not_allBlank) .or group

/-- A cut at `and` passes over a group. -/
theorem passes_groupText (group : Chain Clause) : Passes .and (groupText group) := by
  induction group with
  | last clause => exact clause.passes .and
  | cons clause group ih =>
    intro rest hrest
    show cutAt _ (clause.text ++ (mark .or ++ groupText group) ++ rest) = _
    obtain ⟨c, hc, hword⟩ := exists_head?_groupText group
    have hhead : (groupText group ++ rest).head? = some c := by
      rw [List.head?_append, hc]
      rfl
    have hne : c ≠ 'a' := by
      rintro rfl
      exact hword .and rfl
    rw [List.append_assoc, List.append_assoc, clause.passes .and _ head?_mark_append,
      cutAt_and_mark_or hhead hne, ih rest hrest]
    simp only [Option.map_map]
    congr 1
    funext parts
    simp only [Function.comp, groupText, Chain.map, Chain.text, List.append_assoc]

/-- A text over which a cut passes is not cut itself. -/
theorem Passes.cutAt_eq_none {k : Connective} {text : List Char} (h : Passes k text) :
    cutAt (mark k) text = none := by
  have := h [] (fun c hc => by cases hc)
  rw [List.append_nil] at this
  rw [this, cutAt, if_neg]
  · rfl
  · cases k <;> decide

/-- A text over which a cut passes is cut off the mark behind it. -/
theorem Passes.cutAt_append {k : Connective} {text : List Char} (h : Passes k text)
    (rest : List Char) : cutAt (mark k) (text ++ (mark k ++ rest)) = some (text, rest) := by
  rw [h _ head?_mark_append, cutAt_mark_append, Option.map_some]
  show some (text ++ [], rest) = some (text, rest)
  rw [List.append_nil]

/-- The joined text of a chain is cut behind its first piece, and so is what follows. -/
def Chain.Cuts (k : Connective) : Chain (List Char) → Prop
  | .last _ => True
  | .cons t rest => splitJoin (t ++ (mark k ++ rest.text k)) = some (k, t, rest.text k) ∧ rest.Cuts k

/-- A group is cut at every `or`. -/
theorem cuts_or (group : Chain Clause) : (group.map Clause.text).Cuts .or := by
  induction group with
  | last clause => trivial
  | cons clause group ih =>
    refine ⟨?_, ih⟩
    have hand : cutAt (mark .and) (clause.text ++ (mark .or ++ (group.map Clause.text).text .or)) =
        none := (passes_groupText (.cons clause group)).cutAt_eq_none
    rw [splitJoin, hand, (clause.passes .or).cutAt_append]
    rfl

/-- A chain of groups is cut at every `and`. -/
theorem cuts_and (groups : Chain (Chain Clause)) : (groups.map groupText).Cuts .and := by
  induction groups with
  | last group => trivial
  | cons group groups ih =>
    refine ⟨?_, ih⟩
    rw [splitJoin, (passes_groupText group).cutAt_append]

/-! ## The tree of a row is what its text stands for -/

/-- Pieces that stand for trees, joined by a connective where they are cut, stand for the trees
folded to the right. -/
theorem readsAs_joinRight {α : Type} {text : α → List Char} {tree : α → Condition} {k : Connective}
    (hreads : ∀ a, ReadsAs (text a) (tree a)) (hblank : ∀ a, ¬ AllBlank (text a))
    {pieces : Chain α} (hcuts : (pieces.map text).Cuts k) :
    ReadsAs ((pieces.map text).text k) ((pieces.map tree).joinRight k) := by
  induction pieces with
  | last a => exact hreads a
  | cons a rest ih =>
    obtain ⟨hcut, hrest⟩ := hcuts
    exact .join hcut (hblank a) (Chain.not_allBlank_text hblank k rest) (hreads a) (ih hrest)

/-- A group stands for its tree. -/
theorem readsAs_group (group : Chain Clause) : ReadsAs (groupText group) (groupTree group) :=
  readsAs_joinRight Clause.readsAs (fun clause => clause.isApart.not_allBlank) (cuts_or group)

/-- The text of a row consists of its groups, joined by `and`. -/
theorem text_eq_groups (row : Row Clause) :
    (row.map Clause.text).text = (row.groups.map groupText).text .and := by
  induction row with
  | last clause => rfl
  | cons clause k row ih =>
    cases k with
    | and =>
      show clause.text ++ (mark .and ++ (row.map Clause.text).text) = _
      rw [ih]
      rfl
    | or =>
      show clause.text ++ (mark .or ++ (row.map Clause.text).text) = _
      rw [ih, Row.groups]
      -- the clause goes to the group in front, be it the only one or not
      cases row.groups with
      | last group => rfl
      | cons group more =>
        simp only [Chain.map, Chain.text, groupText, List.append_assoc]

/-- The tree of a row consists of the trees of its groups, joined by `and`. -/
theorem tree_eq_groups (row : Row Clause) :
    (row.map Clause.condition).tree = (row.groups.map groupTree).joinRight .and := by
  rw [Row.tree, Row.groups_map, Chain.map_map]
  rfl

/-- The text of a row stands for its tree. -/
theorem readsAs_row (row : Row Clause) :
    ReadsAs (row.map Clause.text).text (row.map Clause.condition).tree := by
  rw [text_eq_groups, tree_eq_groups]
  exact readsAs_joinRight readsAs_group not_allBlank_groupText (cuts_and row.groups)

/-- A row of clauses is read as its tree if no node of the tree lies deeper than the nesting limit,
and refused for its nesting otherwise. -/
theorem parse_row (row : Row Clause) :
    ((∀ depth, HasNodeAt (row.map Clause.condition).tree depth → depth ≤ maxNesting) →
      parse (row.map Clause.text).text = .ok (row.map Clause.condition).tree) ∧
    ((∃ depth, HasNodeAt (row.map Clause.condition).tree depth ∧ maxNesting < depth) →
      parse (row.map Clause.text).text = .error (.nestingLimit maxNesting)) := by
  have hreads : parse (row.map Clause.text).text = within 0 (row.map Clause.condition).tree :=
    readsAs_row row 0
  rw [hreads, within]
  constructor
  · intro hall
    -- the deepest node is one level above the number of levels
    have hdeepest := hall ((row.map Clause.condition).tree.levels - 1)
      (hasNodeAt_iff.mpr (Nat.sub_one_lt_of_lt (levels_pos _)))
    rw [if_pos (by omega)]
  · rintro ⟨depth, hnode, hdeep⟩
    have hlevels := hasNodeAt_iff.mp hnode
    rw [if_neg (by omega)]

/-- The condition `price`, as a clause. -/
def Clause.price : Clause where
  text := "price".toList
  condition := .holds .price
  parse_text := parseWithin_of_splitJoin_eq_none (by decide) (by decide) (by decide)
  isLeaf := trivial

/-- The condition `price > token.volume`, as a clause. -/
def Clause.priceAboveVolume : Clause where
  text := "price > token.volume".toList
  condition := .compare .price .greater .volume
  parse_text := parseWithin_of_splitJoin_eq_none (by decide) (by decide) (by decide)
  isLeaf := trivial

/-- An `or` binds its neighbours before the `and` behind it; a row of 258 clauses is nested too
deeply. -/
theorem parse_mixed_row_and_long_row :
    parse "price > token.volume or price and price".toList =
        .ok (.join .and (.join .or (.compare .price .greater .volume) (.holds .price))
          (.holds .price)) ∧
      parse (Nat.repeat (fun text => "price or ".toList ++ text) 257 "price".toList) =
        .error (.nestingLimit 256) := by
  constructor
  · refine (parse_row (.cons .priceAboveVolume .or (.cons .price .and (.last .price)))).1 ?_
    intro depth h
    have hlevels : depth < 3 := hasNodeAt_iff.mp h
    exact Nat.le_trans (Nat.le_of_lt hlevels) (by decide)
  · have hrow := (parse_row (Nat.repeat (Row.cons Clause.price .or) 257 (.last .price))).2
      ⟨257, hasNodeAt_iff.mpr (by decide +kernel), by decide⟩
    have htext : Nat.repeat (fun text => "price or ".toList ++ text) 257 "price".toList =
        ((Nat.repeat (Row.cons Clause.price .or) 257 (.last .price)).map Clause.text).text := by
      decide +kernel
    rw [htext]
    exact hrow

end TradingRules.Condition
