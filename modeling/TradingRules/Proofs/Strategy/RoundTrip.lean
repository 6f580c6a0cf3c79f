/-
# The reach of the canonical text

The canonical text of a strategy is read as the strategy with every number as the text of this
number is read, provided that no condition without connectives lies too deep. With one that does,
the text is malformed. So a strategy is read back unchanged if it is shallow enough and each of its
numbers is read back unchanged; names, texts, tags and entries are never confused.
-/
import TradingRules.Proofs.Condition.Precedence
import TradingRules.Proofs.Except
import TradingRules.Proofs.Strategy.Agreement
import TradingRules.Strategy.Parser

namespace TradingRules

/-! ## How deep a condition may lie -/

/-- An expression is an object that holds no other. -/
theorem Expression.nesting_toJson (e : Expression) : e.toJson.nesting = 1 := by
  cases e with
  | tweetContains text => rfl
  | volume => rfl
  | price => rfl
  | indicator i => rfl
  | literal x =>
    show max 0 (max (Json.ofFloat x).nesting 0) + 1 = 1
    rw [Json.nesting_ofFloat]
    rfl

namespace Condition

/-- A condition has a condition without connectives at a depth, the number of connectives around
it. -/
inductive HasLeafAt : Condition → Nat → Prop
  | compare (left : Expression) (k : Comparison) (right : Expression) :
      HasLeafAt (.compare left k right) 0
  | holds (e : Expression) : HasLeafAt (.holds e) 0
  | left {k : Connective} {l r : Condition} {n : Nat} (h : HasLeafAt l n) :
      HasLeafAt (.join k l r) (n + 1)
  | right {k : Connective} {l r : Condition} {n : Nat} (h : HasLeafAt r n) :
      HasLeafAt (.join k l r) (n + 1)

/-- No leaf lies deeper than the levels reach. -/
theorem HasLeafAt.lt_levels {c : Condition} {n : Nat} (h : HasLeafAt c n) : n < c.levels := by
  induction h with
  | compare left k right => exact Nat.zero_lt_one
  | holds e => exact Nat.zero_lt_one
  | left _ ih =>
    rw [levels]
    omega
  | right _ ih =>
    rw [levels]
    omega

/-- On the last level lies a leaf. -/
theorem exists_hasLeafAt (c : Condition) : ∃ n, HasLeafAt c n ∧ c.levels = n + 1 := by
  induction c with
  | join k left right ihl ihr =>
    obtain ⟨m, hm, hleft⟩ := ihl
    obtain ⟨n, hn, hright⟩ := ihr
    rw [levels, hleft, hright]
    by_cases hmn : m ≤ n
    · exact ⟨n + 1, .right hn, by omega⟩
    · exact ⟨m + 1, .left hm, by omega⟩
  | compare left k right => exact ⟨0, .compare left k right, rfl⟩
  | holds e => exact ⟨0, .holds e, rfl⟩

/-- The levels of a condition are bounded by the depths of its leaves. -/
theorem levels_le_iff {c : Condition} {n : Nat} :
    c.levels ≤ n + 1 ↔ ∀ depth, HasLeafAt c depth → depth ≤ n := by
  constructor
  · intro h depth hleaf
    exact Nat.le_of_lt_succ (Nat.lt_of_lt_of_le hleaf.lt_levels h)
  · intro h
    obtain ⟨depth, hleaf, hlevels⟩ := c.exists_hasLeafAt
    rw [hlevels]
    exact Nat.succ_le_succ (h depth hleaf)

/-- A condition nests one deeper than it has levels, the expressions being objects too. -/
theorem nesting_toJson (c : Condition) : c.toJson.nesting = c.levels + 1 := by
  induction c with
  | join k left right ihl ihr =>
    show max 0 (max left.toJson.nesting (max right.toJson.nesting 0)) + 1 = _
    rw [ihl, ihr, levels]
    omega
  | compare left k right =>
    show max 0 (max left.toJson.nesting (max 0 (max right.toJson.nesting 0))) + 1 = 2
    rw [left.nesting_toJson, right.nesting_toJson]
    rfl
  | holds e =>
    show max 0 (max e.toJson.nesting 0) + 1 = 2
    rw [e.nesting_toJson]
    rfl

end Condition

/-- A rule nests within a bound if the levels of its condition do, the bound being large enough for
actions. -/
theorem Rule.nesting_toJson_le_iff {r : Rule} {n : Nat} :
    r.toJson.nesting ≤ n + 4 ↔ r.condition.levels ≤ n + 2 := by
  have hactions : Json.nestingItems (r.actions.map Action.toJson) ≤ 2 := by
    rw [Json.nestingItems_le_iff]
    intro item hitem
    obtain ⟨a, -, rfl⟩ := List.mem_map.mp hitem
    exact Nat.le_of_eq a.nesting_toJson
  -- the list of actions opens at most three, and the rule around both parts one more
  show max r.condition.toJson.nesting
    (max (Json.nestingItems (r.actions.map Action.toJson) + 1) 0) + 1 ≤ n + 4 ↔ _
  rw [r.condition.nesting_toJson]
  omega

namespace Strategy

/-- The greatest depth at which a condition without connectives is still read. -/
def leafLimit : Nat := 122

/-- The condition of some rule has a condition without connectives at a depth. -/
def HasLeafAt (s : Strategy) (depth : Nat) : Prop :=
  ∃ r ∈ s.rules, r.condition.HasLeafAt depth

/-- A strategy nests no deeper than can be read exactly if its leaves do. -/
theorem nesting_toJson_le_iff {s : Strategy} :
    s.toJson.nesting ≤ Json.nestingLimit ↔ ∀ depth, s.HasLeafAt depth → depth ≤ leafLimit := by
  have hrules : s.toJson.nesting ≤ Json.nestingLimit ↔
      ∀ r ∈ s.rules, r.toJson.nesting ≤ 121 + 4 := by
    -- the strategy and the list of its rules open one each
    show max 0 (max (Json.nestingItems (s.rules.map Rule.toJson) + 1) 0) + 1 ≤ 127 ↔ _
    rw [← List.forall_mem_map (P := fun j : Json => j.nesting ≤ 121 + 4),
      ← Json.nestingItems_le_iff]
    omega
  rw [hrules]
  constructor
  · rintro h depth ⟨r, hr, hleaf⟩
    exact Condition.levels_le_iff.mp (Rule.nesting_toJson_le_iff.mp (h r hr)) depth hleaf
  · intro h r hr
    refine Rule.nesting_toJson_le_iff.mpr (Condition.levels_le_iff.mpr fun depth hleaf => ?_)
    exact h depth ⟨r, hr, hleaf⟩

/-! ## What is read of the canonical text -/

/-- The canonical text of a strategy is read as a strategy exactly if no leaf lies too deep and this
is the strategy with its numbers as they are read. -/
theorem fromText_toText_eq_ok_iff {s s' : Strategy} :
    fromText s.toText = .ok s' ↔
      (∀ depth, s.HasLeafAt depth → depth ≤ leafLimit) ∧ s.reread = some s' := by
  rw [s.yields_fromText_toText.eq_ok_iff, nesting_toJson_le_iff]

/-- The canonical text of a strategy with a leaf that lies too deep is malformed, if no number fails
to be read. -/
theorem fromText_toText_of_deep {s s' : Strategy} (hreread : s.reread = some s')
    (hdeep : ∃ depth, s.HasLeafAt depth ∧ leafLimit < depth) :
    fromText s.toText = .error .malformed := by
  obtain ⟨depth, hleaf, hlimit⟩ := hdeep
  refine s.yields_fromText_toText.of_not_fits ?_ (hreread ▸ rfl)
  rw [nesting_toJson_le_iff]
  intro hshallow
  exact Nat.not_lt.mpr (hshallow depth hleaf) hlimit

/-- If each number of a strategy is read back unchanged from its own text, then the strategy is read
back unchanged from its canonical text, provided that no leaf lies deeper than the limit; and if one
does, the canonical text is malformed. The limit is where the text nests as deep as can be read. -/
theorem fromText_toText_of_floatReadsAs (s : Strategy)
    (hnumbers : ∀ x ∈ s.numbers, Json.FloatReadsAs x x) :
    (s.toJson.nesting ≤ Json.nestingLimit ↔ ∀ depth, s.HasLeafAt depth → depth ≤ leafLimit) ∧
      ((∀ depth, s.HasLeafAt depth → depth ≤ leafLimit) → fromText s.toText = .ok s) ∧
      ((∃ depth, s.HasLeafAt depth ∧ leafLimit < depth) →
        fromText s.toText = .error .malformed) := by
  have hreread : s.reread = some s :=
    reread_eq_some_self_iff.mpr fun x hx => Json.floatReadsAs_iff.mp (hnumbers x hx)
  refine ⟨nesting_toJson_le_iff, ?_, fromText_toText_of_deep hreread⟩
  intro hshallow
  exact fromText_toText_eq_ok_iff.mpr ⟨hshallow, hreread⟩

/-- A strategy with a name in which every way to escape occurs, with a text that looks like a tag,
an indicator, and a number beside a text that looks like one. -/
def escapedStrategy : Strategy where
  name := "say \"no\" \\ \x08\t\n\x0c\r\x01"
  rules := [
    { condition := .join .or (.compare (.indicator ⟨.sma, 14⟩) .lessOrEqual (.literal 1.5))
        (.holds (.tweetContains "\"type\": \"price\""))
      actions := [⟨.buy, .ofList [("qty", .number 0.1), ("token", .text "0.1")]⟩] }]

/-- The condition `price`, joined to itself a number of times. -/
def chain (joins : Nat) : Condition :=
  Nat.repeat (Condition.join .and (.holds .price)) joins (.holds .price)

/-- A strategy of one rule with a chain. -/
def chainStrategy (joins : Nat) : Strategy where
  name := "x"
  rules := [⟨chain joins, [⟨.sell, .empty⟩]⟩]

/-- The last condition of a chain lies as deep as there are joins. -/
theorem hasLeafAt_chain (joins : Nat) : (chain joins).HasLeafAt joins := by
  induction joins with
  | zero => exact .holds .price
  | succ joins ih => exact .right ih

/-- There is no number in a chain. -/
theorem numbers_chainStrategy (joins : Nat) : (chainStrategy joins).numbers = [] := by
  have hchain : (chain joins).numbers = [] := by
    induction joins with
    | zero => rfl
    | succ joins ih => exact ih
  show ((chain joins).numbers ++ _) ++ _ = _
  rw [hchain]
  rfl

/-- The strategy of escaped texts is read back; the text of a chain of 123 joins is malformed. -/
theorem fromText_toText_escaped_and_deep :
    ((∀ x ∈ escapedStrategy.numbers, Json.FloatReadsAs x x) ∧
      fromText escapedStrategy.toText = .ok escapedStrategy) ∧
    ((∀ x ∈ (chainStrategy 123).numbers, Json.FloatReadsAs x x) ∧
      fromText (chainStrategy 123).toText = .error .malformed) := by
  have hescaped : ∀ x ∈ escapedStrategy.numbers, Json.FloatReadsAs x x := by
    have hall : ∀ x ∈ escapedStrategy.numbers, Json.rereadFloat x = some x := by decide +kernel
    exact fun x hx => Json.floatReadsAs_iff.mpr (hall x hx)
  have hchain : ∀ x ∈ (chainStrategy 123).numbers, Json.FloatReadsAs x x := by
    rw [numbers_chainStrategy]
    exact fun x hx => nomatch hx
  obtain ⟨hfits, hread, -⟩ := fromText_toText_of_floatReadsAs escapedStrategy hescaped
  obtain ⟨-, -, hmalformed⟩ := fromText_toText_of_floatReadsAs (chainStrategy 123) hchain
  exact ⟨⟨hescaped, hread (hfits.mp (by decide +kernel))⟩, hchain,
    hmalformed ⟨123, ⟨_, List.mem_singleton_self _, hasLeafAt_chain 123⟩, by decide⟩⟩

/-- What is read of the canonical text agrees with the strategy exactly if no leaf lies too deep and
each number is equal to what its own text is read as. -/
theorem exists_fromText_toText_agrees_iff (s : Strategy) :
    (∃ s', fromText s.toText = .ok s' ∧ s'.agrees s = true) ↔
      (∀ depth, s.HasLeafAt depth → depth ≤ leafLimit) ∧
        ∀ x ∈ s.numbers, ∃ y, Json.FloatReadsAs x y ∧ (y == x) = true := by
  have hnumber : ∀ x, Json.readsAlike x = true ↔
      ∃ y, Json.FloatReadsAs x y ∧ (y == x) = true := by
    intro x
    simp only [Json.floatReadsAs_iff]
    exact Option.any_eq_true _ _
  have hagrees : (∃ s', s.reread = some s' ∧ s'.agrees s = true) ↔
      ∀ x ∈ s.numbers, ∃ y, Json.FloatReadsAs x y ∧ (y == x) = true := by
    have hany := Option.any_eq_true (fun s' : Strategy => s'.agrees s) s.reread
    rw [any_agrees_reread, List.all_eq_true] at hany
    exact hany.symm.trans (forall₂_congr fun x _ => hnumber x)
  rw [← hagrees]
  constructor
  · rintro ⟨s', hread, hs'⟩
    obtain ⟨hshallow, hreread⟩ := fromText_toText_eq_ok_iff.mp hread
    exact ⟨hshallow, s', hreread, hs'⟩
  · rintro ⟨hshallow, s', hreread, hs'⟩
    exact ⟨s', fromText_toText_eq_ok_iff.mpr ⟨hshallow, hreread⟩, hs'⟩

/-- The text of a chain of joins. -/
def chainText (joins : Nat) : List Char :=
  Nat.repeat (fun text => "price and ".toList ++ text) joins "price".toList

/-- The source of a strategy of one rule with a chain. -/
def chainSource (joins : Nat) : List Char :=
  "strategy(\"x\") \x7b if ".toList ++ chainText joins ++ " \x7b sell() \x7d \x7d".toList

/-- A chain of 123 joins is a condition. -/
theorem parse_chainText : Condition.parse (chainText 123) = .ok (chain 123) := by
  -- reading it by evaluation takes long; as a row of clauses it is known to be read as its tree
  let row := Nat.repeat (Condition.Row.cons Condition.Clause.price .and) 123 (.last .price)
  have htext : chainText 123 = (row.map Condition.Clause.text).text := by decide +kernel
  have htree : (row.map Condition.Clause.condition).tree = chain 123 := by decide +kernel
  have hreads := Condition.readsAs_row row 0
  rw [← htext, htree] at hreads
  exact hreads.trans (if_pos (by decide +kernel))

/-- A source with one block is read as a strategy of one rule. -/
theorem parse_of_block {source name condition body : List Char} {c : Condition}
    (hname : findName source = some name) (hblocks : cutBlocks source = .ok [⟨condition, body⟩])
    (hcondition : Condition.parse condition = .ok c) :
    parse (String.ofList source) = .ok ⟨String.ofList name, [⟨c, Action.parse body⟩]⟩ := by
  have hrule : Block.rule ⟨condition, body⟩ = .ok ⟨c, Action.parse body⟩ := by
    rw [Block.rule, hcondition]
    rfl
  rw [parse, String.toList_ofList, parseChars, hname]
  simp only [hblocks, bind, Except.bind, readRules, hrule, pure, Except.pure]

/-- The source of a chain of 123 joins is a strategy, far from the limit of its reader. -/
theorem parse_chainSource : parse (String.ofList (chainSource 123)) = .ok (chainStrategy 123) := by
  have hname : findName (chainSource 123) = some "x".toList := by decide +kernel
  have hblocks : cutBlocks (chainSource 123) = .ok [⟨chainText 123, "sell()".toList⟩] :=
    eq_ok_of_toOption (by decide +kernel)
  have haction : Action.parse "sell()".toList = [⟨.sell, .empty⟩] := by decide +kernel
  rw [parse_of_block hname hblocks parse_chainText, haction, String.ofList_toList, chainStrategy]

/-- A source of one rule that compares the price with a number of 17 digits. -/
def thresholdSource : String :=
  "strategy(\"x\") \x7b if price > 0.10000000000000185 \x7b sell() \x7d \x7d"

/-- The strategy of one rule that compares the price with a number. -/
def thresholdStrategy (x : Float) : Strategy where
  name := "x"
  rules := [⟨.compare .price .greater (.literal x), [⟨.sell, .empty⟩]⟩]

/-- Of two sources that are strategies, the canonical text of the first, a chain of 123 joins, is
malformed, and that of the second, with a number of 17 digits, is read as another strategy. -/
theorem chain_and_threshold_not_read_back :
    (∃ s, parse (String.ofList (chainSource 123)) = .ok s ∧
      fromText s.toText = .error .malformed) ∧
    (∃ s s', parse thresholdSource = .ok s ∧ fromText s.toText = .ok s' ∧
      s'.agrees s = false) := by
  constructor
  · refine ⟨chainStrategy 123, parse_chainSource, ?_⟩
    have hreread : (chainStrategy 123).reread = some (chainStrategy 123) := by
      rw [reread_eq_some_self_iff, numbers_chainStrategy]
      exact fun x hx => nomatch hx
    exact fromText_toText_of_deep hreread
      ⟨123, ⟨_, List.mem_singleton_self _, hasLeafAt_chain 123⟩, by decide⟩
  · have hparse : (parse thresholdSource).toOption =
        some (thresholdStrategy 0.10000000000000185) := by
      decide +kernel
    have hreread : (thresholdStrategy 0.10000000000000185).reread =
        some (thresholdStrategy 0.10000000000000184) := by
      decide +kernel
    have hshallow : (thresholdStrategy 0.10000000000000185).toJson.nesting ≤ Json.nestingLimit := by
      decide +kernel
    have hdisagrees : (thresholdStrategy 0.10000000000000184).agrees
        (thresholdStrategy 0.10000000000000185) = false := by
      decide +kernel
    exact ⟨_, _, eq_ok_of_toOption hparse,
      fromText_toText_eq_ok_iff.mpr ⟨nesting_toJson_le_iff.mp hshallow, hreread⟩, hdisagrees⟩

end Strategy

end TradingRules
