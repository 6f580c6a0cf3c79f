/-
# Accepted texts and the strategies read from them

The sandbox walks the value of a text, and the typed reader makes a strategy of the same text. The
walk does not enter a list that spells a strategy, a rule or a condition, though the reader does. The
tree that is written for the strategy has no such lists: it passes if the value of the text did,
unless it is too deep, and then the value has a list in the place of a node with nodes below it.
-/
import TradingRules.Proofs.Sandbox.ContentScan
import TradingRules.Proofs.Sandbox.StrategyTree
import TradingRules.Proofs.Strategy.Mention
import TradingRules.Proofs.Strategy.RoundTrip

namespace TradingRules.Sandbox

open TradingRules.Json (FieldAt Mentions)

/-! ## The walk of a value and that of the tree written for what was read -/

/-- Somewhere a tree has a list in the place of a node of another tree that has nodes below it. -/
def HasListFor (tree model : Json) : Prop :=
  ∃ path items node, NodeAt tree path (.array items) ∧ NodeAt model path node ∧ children node ≠ []

/-- A tree covers another one: it has a node at the end of every path of the other one, unless it
has a list in the place of an inner node. -/
def Covers (tree model : Json) : Prop :=
  ∀ path target, NodeAt model path target → (∃ node, NodeAt tree path node) ∨ HasListFor tree model

/-- A node with a branch has children. -/
theorem children_ne_nil {node child : Json} {b : Branch} (h : b.child? node = some child) :
    children node ≠ [] := by
  rw [← map_snd_branches]
  exact List.ne_nil_of_mem (List.mem_map_of_mem (mem_branches.mpr h))

/-- A list covers any tree: there is nothing to be covered below its place, or it is a list in the
place of a node with nodes below it. -/
theorem covers_of_array (items : List Json) (model : Json) : Covers (.array items) model := by
  intro path target hnode
  cases hnode with
  | root => exact Or.inl ⟨_, .root _⟩
  | down hchild _ => exact Or.inr ⟨[], items, model, .root _, .root _, children_ne_nil hchild⟩

/-- To cover a tree is only asked of what is no list. -/
theorem covers_of_not_array {tree model : Json}
    (h : (¬ ∃ items, tree = .array items) → Covers tree model) : Covers tree model := by
  by_cases hlist : ∃ items, tree = .array items
  · obtain ⟨items, rfl⟩ := hlist
    exact covers_of_array items model
  · exact h hlist

/-- A tree covers another one if its children do so branch by branch. -/
theorem covers_of_children {tree model : Json}
    (h : ∀ (b : Branch) child, b.child? model = some child →
      ∃ child', b.child? tree = some child' ∧ Covers child' child) : Covers tree model := by
  intro path target hnode
  cases hnode with
  | root => exact Or.inl ⟨tree, .root tree⟩
  | @down _ child _ b tail hchild htail =>
    obtain ⟨child', hchild', hcovers⟩ := h b child hchild
    rcases hcovers tail target htail with ⟨node, hnode⟩ | ⟨path, items, node, hlist, hnode, hne⟩
    · exact Or.inl ⟨node, .down hchild' hnode⟩
    · exact Or.inr ⟨b :: path, items, node, .down hchild' hlist, .down hchild hnode, hne⟩

/-- A tree without children is covered by any tree. -/
theorem covers_of_leaf (tree : Json) {model : Json} (h : children model = []) :
    Covers tree model :=
  covers_of_children fun _ _ hchild => absurd h (children_ne_nil hchild)

/-! ### Conditions -/

/-- The branches of a connective lead to its two sides. -/
theorem child?_join {k : Connective} {left right : Condition} {b : Branch} {child : Json}
    (h : b.child? (Condition.join k left right).toJson.sorted = some child) :
    (b = .left ∧ child = left.toJson.sorted) ∨ (b = .right ∧ child = right.toJson.sorted) := by
  cases b <;>
    simp_all [Branch.child?, Branch.item?, Condition.toJson, Json.ofTagged, Json.member?_sorted,
      List.lookup_cons, Json.tagName]

/-- The branches of a comparison lead to its two operands. -/
theorem child?_compare {k : Comparison} {left right : Expression} {b : Branch} {child : Json}
    (h : b.child? (Condition.compare left k right).toJson.sorted = some child) :
    (b = .left ∧ child = left.toJson.sorted) ∨ (b = .right ∧ child = right.toJson.sorted) := by
  cases b <;>
    simp_all [Branch.child?, Branch.item?, Condition.toJson, Json.ofTagged, Json.member?_sorted,
      List.lookup_cons, Json.tagName]

/-- The branch of a test leads to its expression. -/
theorem child?_holds {e : Expression} {b : Branch} {child : Json}
    (h : b.child? (Condition.holds e).toJson.sorted = some child) :
    b = .expression ∧ child = e.toJson.sorted := by
  cases b <;>
    simp_all [Branch.child?, Branch.item?, Condition.toJson, Json.ofTagged, Json.member?_sorted,
      List.lookup_cons, Json.tagName]

/-- The value of a condition covers the tree that is written for the condition. -/
theorem covers_condition {j : Json} {c : Condition} (h : Condition.ofJson? j = some c) :
    Covers j.sorted c.toJson.sorted := by
  induction c generalizing j with
  | join k left right ihl ihr =>
    obtain ⟨l, r, hl, hleft, hr, hright⟩ := Condition.fieldAt_of_join h
    refine covers_of_not_array fun hobject => covers_of_children fun b child hchild => ?_
    rcases child?_join hchild with ⟨rfl, rfl⟩ | ⟨rfl, rfl⟩
    · exact ⟨l.sorted, hl.member?_sorted.resolve_left hobject, ihl hleft⟩
    · exact ⟨r.sorted, hr.member?_sorted.resolve_left hobject, ihr hright⟩
  | compare left k right =>
    obtain ⟨l, r, hl, -, hr, -⟩ := Condition.fieldAt_of_compare h
    refine covers_of_not_array fun hobject => covers_of_children fun b child hchild => ?_
    rcases child?_compare hchild with ⟨rfl, rfl⟩ | ⟨rfl, rfl⟩
    · exact ⟨l.sorted, hl.member?_sorted.resolve_left hobject,
        covers_of_leaf _ (children_expression left)⟩
    · exact ⟨r.sorted, hr.member?_sorted.resolve_left hobject,
        covers_of_leaf _ (children_expression right)⟩
  | holds e =>
    obtain ⟨v, hv, -⟩ := Condition.fieldAt_of_holds h
    refine covers_of_not_array fun hobject => covers_of_children fun b child hchild => ?_
    obtain ⟨rfl, rfl⟩ := child?_holds hchild
    exact ⟨v.sorted, hv.member?_sorted.resolve_left hobject,
      covers_of_leaf _ (children_expression e)⟩

/-! ### Rules and strategies -/

/-- The items of a sorted list under a member. -/
theorem item?_of_member? {node : Json} {name : String} {items : List Json}
    (h : node.member? name = some (Json.array items).sorted) (place : Nat) :
    Branch.item? node name place = items[place]?.map Json.sorted := by
  rw [Branch.item?, h, Json.sorted, Json.sortedItems_eq_map]
  exact List.getElem?_map

/-- The items of a list that was written are what was written for its elements. -/
theorem item?_of_written {α : Type} {write : α → Json} {as : List α} {node child : Json}
    {name : String} {place : Nat}
    (h : node.member? name = some (Json.array (as.map write)).sorted)
    (hchild : Branch.item? node name place = some child) :
    ∃ a, as[place]? = some a ∧ child = (write a).sorted := by
  rw [item?_of_member? h, List.getElem?_map, Option.map_map, Option.map_eq_some_iff] at hchild
  obtain ⟨a, ha, rfl⟩ := hchild
  exact ⟨a, ha, rfl⟩

/-- The items of a field of an object are the items under its name. -/
theorem item?_of_fieldAt {j item : Json} {items : List Json} {name : String} {fieldPlace place : Nat}
    (h : FieldAt name fieldPlace j (.array items)) (hobject : ¬ ∃ items, j.sorted = .array items)
    (hitem : items[place]? = some item) : Branch.item? j.sorted name place = some item.sorted := by
  rw [item?_of_member? (h.member?_sorted.resolve_left hobject), hitem]
  rfl

/-- The branches of a rule lead to its condition and to its actions. -/
theorem child?_rule {r : Rule} {b : Branch} {child : Json}
    (h : b.child? r.toJson.sorted = some child) :
    (b = .condition ∧ child = r.condition.toJson.sorted) ∨
      ∃ place a, b = .actions place ∧ r.actions[place]? = some a ∧ child = a.toJson.sorted := by
  cases b with
  | actions place =>
    right
    obtain ⟨a, ha, rfl⟩ := item?_of_written (Json.member?_sorted _ "actions") h
    exact ⟨place, a, rfl, ha, rfl⟩
  | _ =>
    simp_all [Branch.child?, Branch.item?, Rule.toJson, Json.member?_sorted, List.lookup_cons]

/-- The branches of a strategy lead to its rules. -/
theorem child?_strategy {s : Strategy} {b : Branch} {child : Json}
    (h : b.child? s.toJson.sorted = some child) :
    ∃ place r, b = .rules place ∧ s.rules[place]? = some r ∧ child = r.toJson.sorted := by
  cases b with
  | rules place =>
    obtain ⟨r, hr, rfl⟩ := item?_of_written (Json.member?_sorted _ "rules") h
    exact ⟨place, r, rfl, hr, rfl⟩
  | _ =>
    simp_all [Branch.child?, Branch.item?, Strategy.toJson, Json.member?_sorted, List.lookup_cons]

/-- The value of a rule covers the tree that is written for the rule. -/
theorem covers_rule {j : Json} {r : Rule} (h : r.IsReadFrom j) : Covers j.sorted r.toJson.sorted := by
  obtain ⟨v, hv, hcondition⟩ := h.condition
  obtain ⟨items, hitems, hactions⟩ := h.actions
  refine covers_of_not_array fun hobject => covers_of_children fun b child hchild => ?_
  rcases child?_rule hchild with ⟨rfl, rfl⟩ | ⟨place, a, rfl, ha, rfl⟩
  · exact ⟨v.sorted, hv.member?_sorted.resolve_left hobject, covers_condition hcondition⟩
  · obtain ⟨item, hitem, -⟩ := exists_getElem?_of_forall₂ hactions ha
    exact ⟨item.sorted, item?_of_fieldAt hitems hobject hitem,
      covers_of_leaf _ (children_action a)⟩

/-- The value of a strategy covers the tree that is written for the strategy. -/
theorem covers_strategy {j : Json} {s : Strategy} (h : s.IsReadFrom j) :
    Covers j.sorted s.toJson.sorted := by
  obtain ⟨items, hitems, hrules⟩ := h.rules
  refine covers_of_not_array fun hobject => covers_of_children fun b child hchild => ?_
  obtain ⟨place, r, rfl, hr, rfl⟩ := child?_strategy hchild
  obtain ⟨item, hitem, hread⟩ := exists_getElem?_of_forall₂ hrules hr
  exact ⟨item.sorted, item?_of_fieldAt hitems hobject hitem, covers_rule hread⟩

/-! ## Acceptance -/

/-- A tree is accepted exactly if its structure is without a fault and it mentions no unwanted
word. -/
theorem validate_eq_ok_iff {limits : Limits} {root : Json} :
    validate limits root = .ok () ↔
      structureFault? limits.maxDepth 0 root = none ∧
        ∀ pattern ∈ dangerousPatterns, ¬ Mentions pattern.toList root := by
  rw [validate, checkStructure_eq_refusal, ← scanContent_eq_ok_iff]
  cases structureFault? limits.maxDepth 0 root with
  | none => exact (and_iff_right rfl).symm
  | some fault =>
    constructor
    · intro h
      cases h
    · rintro ⟨h, -⟩
      cases h

/-- What is accepted is accepted with more room, and in any time. -/
theorem validate_of_le {limits limits' : Limits} {root : Json} (h : validate limits root = .ok ())
    (hle : limits.maxDepth ≤ limits'.maxDepth) : validate limits' root = .ok () := by
  obtain ⟨hsound, hclean⟩ := validate_eq_ok_iff.mp h
  refine validate_eq_ok_iff.mpr ⟨structureFault?_eq_none_iff.mpr ?_, hclean⟩
  intro path node e hnode
  have hnone := structureFault?_eq_none_iff.mp hsound path node
  obtain ⟨hdepth, htag⟩ := not_offends_iff.mp fun e => hnone e hnode
  exact not_offends_iff.mpr ⟨Nat.le_trans hdepth hle, htag⟩ e

/-- The words that the sandbox looks for are part of no text that every strategy is written with. -/
theorem isOwnWord_of_mem {pattern : String} (h : pattern ∈ dangerousPatterns) :
    IsOwnWord pattern.toList := by
  have hall : ∀ pattern ∈ dangerousPatterns, ∀ t ∈ fixedTexts,
      ¬ pattern.toList <:+: Json.escaped t := by
    decide +kernel
  exact hall pattern h

/-- What is written for a strategy that was read from an accepted value mentions no unwanted
word. -/
theorem scanContent_toJson {j : Json} {s : Strategy} (h : s.IsReadFrom j)
    (hclean : ∀ pattern ∈ dangerousPatterns, ¬ Mentions pattern.toList j.sorted) :
    ∀ pattern ∈ dangerousPatterns, ¬ Mentions pattern.toList s.toJson.sorted := by
  intro pattern hmem hmentions
  refine hclean pattern hmem (h.mentions (isOwnWord_of_mem hmem) ?_)
  exact Json.mentions_of_sorted s.toJson hmentions

/-- A strategy that is too deep as a tree, though the value it was read from has no node that is too
deep, was read from a list in the place of an inner node. -/
theorem hasListFor_of_tooDeep {maxDepth : Nat} {v model : Json} (hcovers : Covers v model)
    (hv : structureFault? maxDepth 0 v = none)
    (hmodel : structureFault? maxDepth 0 model = some (.maxDepthExceeded maxDepth)) :
    HasListFor v model := by
  obtain ⟨path, node, hnode, hoffends, -⟩ := structureFault?_eq_some_iff.mp hmodel
  have hdeep : maxDepth < 0 + path.length := by
    cases hoffends with
    | tooDeep hdeep => exact hdeep
  rcases hcovers path node hnode with ⟨node', hnode'⟩ | hlist
  · exact absurd (.tooDeep hdeep) (structureFault?_eq_none_iff.mp hv path node' _ hnode')
  · exact hlist

/-- A strategy with a condition that is too deep, two levels down, is refused as a tree. -/
theorem validate_toJson_of_exists {limits : Limits} {s : Strategy}
    (h : ∃ r ∈ s.rules, limits.maxDepth < 2 + r.condition.levels) :
    validate limits s.toJson.sorted = .error (.maxDepthExceeded limits.maxDepth) := by
  rw [validate, checkStructure_eq_refusal, structureFault?_strategy, rulesFault?_of_exists h]
  rfl

/-- **What an accepted text is read as.** If the sandbox accepts the value of a text and the text is
read as a strategy, then the tree that is written for the strategy is accepted exactly if no
condition of it is too deep. If one is, the error says so and nothing else can be wrong, and the
value has a list in the place of a node with nodes below it: a strategy, a rule or a condition that
is spelled as a list, which the walk passes over. -/
theorem validate_toJson_of_accepted {limits : Limits} {text : String} {v : Json} {s : Strategy}
    (hv : Json.parse text = .ok v) (hs : Strategy.fromText text = .ok s)
    (haccepted : validate limits v = .ok ()) :
    (validate limits s.toJson.sorted = .ok () ↔
      ∀ r ∈ s.rules, 2 + r.condition.levels ≤ limits.maxDepth) ∧
    (validate limits s.toJson.sorted = .ok () ∨
      validate limits s.toJson.sorted = .error (.maxDepthExceeded limits.maxDepth) ∧
        ∃ path items node, NodeAt v path (.array items) ∧ NodeAt s.toJson.sorted path node ∧
          children node ≠ []) := by
  obtain ⟨j, rfl, hread⟩ := Strategy.exists_isReadFrom hv hs
  obtain ⟨hsound, hclean⟩ := validate_eq_ok_iff.mp haccepted
  have hmodel := scanContent_toJson hread hclean
  have hstructure := structureFault?_strategy limits.maxDepth s
  by_cases hdeep : ∃ r ∈ s.rules, limits.maxDepth < 2 + r.condition.levels
  · have hfault := hstructure.trans (rulesFault?_of_exists hdeep)
    have herror := validate_toJson_of_exists hdeep
    refine ⟨iff_of_false ?_ ?_, Or.inr ⟨herror, ?_⟩⟩
    · rw [herror]
      intro h
      cases h
    · obtain ⟨r, hr, hlt⟩ := hdeep
      intro hall
      have := hall r hr
      omega
    · exact hasListFor_of_tooDeep (covers_strategy hread) hsound hfault
  · have hshallow : ∀ r ∈ s.rules, 2 + r.condition.levels ≤ limits.maxDepth := by
      intro r hr
      by_contra hlt
      exact hdeep ⟨r, hr, Nat.lt_of_not_le hlt⟩
    have hok : validate limits s.toJson.sorted = .ok () :=
      validate_eq_ok_iff.mpr ⟨hstructure.trans (rulesFault?_of_forall hshallow), hmodel⟩
    exact ⟨iff_of_true hok hshallow, Or.inl hok⟩

/-! ### Two spellings of a strategy -/

/-- The strategy of a text whose value the sandbox accepts. -/
def acceptedStrategy? (limits : Limits) (text : String) : Option Strategy := do
  let v ← (Json.parse text).toOption
  (validate limits v).toOption
  (Strategy.fromText text).toOption

theorem exists_of_acceptedStrategy? {limits : Limits} {text : String} {s : Strategy}
    (h : acceptedStrategy? limits text = some s) :
    ∃ v, Json.parse text = .ok v ∧ Strategy.fromText text = .ok s ∧
      validate limits v = .ok () := by
  obtain ⟨v, hv, h⟩ := Option.bind_eq_some_iff.mp h
  obtain ⟨⟨⟩, haccepted, hs⟩ := Option.bind_eq_some_iff.mp h
  exact ⟨v, eq_ok_of_toOption hv, eq_ok_of_toOption hs, eq_ok_of_toOption haccepted⟩

/-- A condition of three levels. -/
def nestedCondition : Condition :=
  .join .or (.join .or (.holds .price) (.holds .price)) (.holds .volume)

/-- A strategy whose only rule has three levels of conditions. -/
def nestedStrategy : Strategy :=
  ⟨"x", [⟨nestedCondition, []⟩]⟩

/-- The strategy in lists. -/
def listedText : String :=
  "[\"x\",[[[\"or\",[\"or\",[\"function\",[\"price\"]],[\"function\",[\"price\"]]]," ++
    "[\"function\",[\"token.volume\"]]],[]]]]"

/-- With room for two levels, the value of the lists is accepted, and read as the strategy. -/
theorem exists_parse_listedText :
    ∃ v, Json.parse listedText = .ok v ∧ Strategy.fromText listedText = .ok nestedStrategy ∧
      validate ⟨2, 1000⟩ v = .ok () := by
  have haccepted : acceptedStrategy? ⟨2, 1000⟩ listedText = some nestedStrategy := by
    decide +kernel
  exact exists_of_acceptedStrategy? haccepted

/-- With room for five levels, the tree of the strategy in lists is accepted as well. -/
theorem validate_toJson_of_listed :
    ∃ v, Json.parse listedText = .ok v ∧ Strategy.fromText listedText = .ok nestedStrategy ∧
      validate ⟨5, 1000⟩ v = .ok () ∧ validate ⟨5, 1000⟩ nestedStrategy.toJson.sorted = .ok () := by
  obtain ⟨v, hv, hs, hvalid⟩ := exists_parse_listedText
  have hroomier : validate ⟨5, 1000⟩ v = .ok () := validate_of_le hvalid (by decide)
  have hshallow : ∀ r ∈ nestedStrategy.rules, 2 + r.condition.levels ≤ 5 := by decide
  exact ⟨v, hv, hs, hroomier, (validate_toJson_of_accepted hv hs hroomier).1.mpr hshallow⟩

/-- Spelled in lists, a strategy is accepted that has more levels than allowed. Both its tree and the
strategy itself are refused. -/
theorem listed_strategy_passes :
    ∃ v, Json.parse listedText = .ok v ∧ Strategy.fromText listedText = .ok nestedStrategy ∧
      validate ⟨2, 1000⟩ v = .ok () ∧
      validate ⟨2, 1000⟩ nestedStrategy.toJson.sorted = .error (.maxDepthExceeded 2) ∧
      validateStrategy ⟨2, 1000⟩ nestedStrategy = .error (.maxDepthExceeded 2) := by
  obtain ⟨v, hv, hs, hvalid⟩ := exists_parse_listedText
  have hdeep : ∃ r ∈ nestedStrategy.rules, 2 < r.condition.levels := by decide
  refine ⟨v, hv, hs, hvalid, validate_toJson_of_exists ?_, validateStrategy_of_exists hdeep⟩
  decide

end TradingRules.Sandbox
