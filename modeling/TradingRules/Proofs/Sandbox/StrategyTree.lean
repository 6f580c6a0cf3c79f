/-
# The tree of a strategy

The tree of a strategy holds known tags only, and below an action, or below an expression, nothing
is walked. So its structure can be at fault only with its depth, which is that of the deepest
condition. A strategy is validated with its conditions as roots; as a tree of its own it has every
condition two levels further down, and passes under a depth limit that is greater by two.
-/
import TradingRules.Proofs.Json.Sorted
import TradingRules.Proofs.Sandbox.Walk
import TradingRules.Sandbox.Validation

namespace TradingRules.Sandbox

/-! ## Nodes that can only be too deep -/

/-- The fault of a node that is at fault with nothing but its depth. -/
def depthFault? (maxDepth depth : Nat) : Option Error :=
  if maxDepth < depth then some (.maxDepthExceeded maxDepth) else none

theorem depthFault?_of_le {maxDepth depth : Nat} (h : depth ≤ maxDepth) :
    depthFault? maxDepth depth = none :=
  if_neg (Nat.not_lt.mpr h)

theorem depthFault?_of_lt {maxDepth depth : Nat} (h : maxDepth < depth) :
    depthFault? maxDepth depth = some (.maxDepthExceeded maxDepth) :=
  if_pos h

/-- Of two depths the greater one is at fault if any is. -/
theorem depthFault?_or (maxDepth m n : Nat) :
    (depthFault? maxDepth m).or (depthFault? maxDepth n) = depthFault? maxDepth (max m n) := by
  by_cases hm : maxDepth < m
  · rw [depthFault?_of_lt hm, depthFault?_of_lt (Nat.lt_of_lt_of_le hm (Nat.le_max_left m n)),
      Option.some_or]
  · rw [depthFault?_of_le (Nat.le_of_not_lt hm), Option.none_or]
    by_cases hn : maxDepth < n
    · rw [depthFault?_of_lt hn, depthFault?_of_lt (Nat.lt_of_lt_of_le hn (Nat.le_max_right m n))]
    · rw [depthFault?_of_le (Nat.le_of_not_lt hn), depthFault?_of_le]
      omega

/-- A node with a known tag, or none, is walked on to its children if it is not too deep. -/
theorem structureFault?_of_tagFault? {maxDepth depth : Nat} {node : Json}
    (h : tagFault? node = none) :
    structureFault? maxDepth depth node =
      (depthFault? maxDepth depth).or
        ((children node).findSome? (structureFault? maxDepth (depth + 1))) := by
  by_cases hdepth : maxDepth < depth
  · rw [depthFault?_of_lt hdepth, Option.some_or, structureFault?, nodeFault?, if_pos hdepth]
  · have hnode : nodeFault? maxDepth depth node = none := by
      rw [nodeFault?, if_neg hdepth, h]
    rw [depthFault?_of_le (Nat.le_of_not_lt hdepth), Option.none_or, structureFault?_of_root hnode,
      ← map_snd_branches, List.findSome?_map]
    rfl

/-- An object without a tag is at no fault with it. -/
theorem tagFault?_of_eq_none {node : Json} (h : node.member? "type" = none) :
    tagFault? node = none := by
  rw [tagFault?, h]

/-- A known tag is no fault. -/
theorem tagFault?_of_mem {node : Json} {tag : String}
    (h : node.member? "type" = some (.string tag)) (hmem : tag ∈ allowedTags) :
    tagFault? node = none := by
  rw [tagFault?, h]
  exact if_pos hmem

/-! ## Expressions, actions, conditions -/

/-- The tag of a sorted tagged value, whose fields are not named like the tag. -/
theorem member?_type_ofTagged {tag : String} {fields : List (String × Json)}
    (h : fields.reverse.lookup "type" = none) :
    (Json.ofTagged tag fields).sorted.member? "type" = some (.string tag) := by
  rw [Json.ofTagged, Json.member?_sorted, List.reverse_cons, List.lookup_append, h]
  rfl

/-- A tagged value with a known tag is walked on to its children. -/
theorem structureFault?_ofTagged {maxDepth depth : Nat} {tag : String}
    {fields : List (String × Json)} (hmem : tag ∈ allowedTags)
    (hfields : fields.reverse.lookup "type" = none) :
    structureFault? maxDepth depth (Json.ofTagged tag fields).sorted =
      (depthFault? maxDepth depth).or
        ((children (Json.ofTagged tag fields).sorted).findSome?
          (structureFault? maxDepth (depth + 1))) :=
  structureFault?_of_tagFault? (tagFault?_of_mem (member?_type_ofTagged hfields) hmem)

/-- The names of all kinds of expressions are known tags. -/
theorem expressionTag_mem (tag : Expression.Tag) : tag.name ∈ allowedTags := by
  cases tag with
  | indicator kind => cases kind <;> decide
  | _ => decide

/-- The names of all kinds of conditions are known tags. -/
theorem conditionTag_mem (tag : Condition.Tag) : tag.name ∈ allowedTags := by
  cases tag with
  | join connective => cases connective <;> decide
  | _ => decide

/-- The words for all kinds of orders are known tags. -/
theorem kindWord_mem (kind : Action.Kind) : kind.word ∈ allowedTags := by
  cases kind <;> decide

/-- An expression has no children. -/
theorem children_expression (e : Expression) : children e.toJson.sorted = [] := by
  simp only [children, Expression.toJson, Json.ofTagged, Json.member?_sorted]
  cases e <;> rfl

/-- An expression can only be too deep. -/
theorem structureFault?_expression (maxDepth depth : Nat) (e : Expression) :
    structureFault? maxDepth depth e.toJson.sorted = depthFault? maxDepth depth := by
  have hfields : e.fields.reverse.lookup "type" = none := by
    cases e <;> rfl
  have hchildren := children_expression e
  rw [Expression.toJson] at hchildren ⊢
  rw [structureFault?_ofTagged (expressionTag_mem e.tag) hfields, hchildren, List.findSome?_nil,
    Option.or_none]

/-- An action has no children: its parameters are not walked. -/
theorem children_action (a : Action) : children a.toJson.sorted = [] := by
  simp only [children, Action.toJson, Json.ofTagged, Json.member?_sorted]
  rfl

/-- An action can only be too deep. -/
theorem structureFault?_action (maxDepth depth : Nat) (a : Action) :
    structureFault? maxDepth depth a.toJson.sorted = depthFault? maxDepth depth := by
  have hchildren := children_action a
  rw [Action.toJson] at hchildren ⊢
  rw [structureFault?_ofTagged (kindWord_mem a.kind) rfl, hchildren, List.findSome?_nil,
    Option.or_none]

/-- The first fault of some trees is that of the first one or else that of the others. -/
theorem findSome?_cons_eq_or {α : Type} (fault? : α → Option Error) (a : α) (rest : List α) :
    (a :: rest).findSome? fault? = (fault? a).or (rest.findSome? fault?) := by
  rw [List.findSome?_cons]
  cases fault? a <;> rfl

/-- A condition can only be too deep, and is so exactly if its last level is. -/
theorem structureFault?_condition (maxDepth depth : Nat) (c : Condition) :
    structureFault? maxDepth depth c.toJson.sorted = depthFault? maxDepth (depth + c.levels) := by
  induction c generalizing depth with
  | join connective left right ihl ihr =>
    have hchildren : children (Condition.join connective left right).toJson.sorted =
        [left.toJson.sorted, right.toJson.sorted] := by
      simp only [children, Condition.toJson, Json.ofTagged, Json.member?_sorted]
      rfl
    rw [Condition.toJson] at hchildren ⊢
    rw [structureFault?_ofTagged (conditionTag_mem _) rfl, hchildren, findSome?_cons_eq_or,
      List.findSome?_singleton, ihl, ihr,
      depthFault?_or, depthFault?_or, Condition.levels]
    congr 1
    omega
  | compare left comparison right =>
    -- the operator is no child, so the two expressions are the whole next level
    have hchildren : children (Condition.compare left comparison right).toJson.sorted =
        [left.toJson.sorted, right.toJson.sorted] := by
      simp only [children, Condition.toJson, Json.ofTagged, Json.member?_sorted]
      rfl
    rw [Condition.toJson] at hchildren ⊢
    rw [structureFault?_ofTagged (conditionTag_mem _) rfl, hchildren, findSome?_cons_eq_or,
      List.findSome?_singleton, structureFault?_expression, structureFault?_expression,
      depthFault?_or, depthFault?_or, Condition.levels]
    congr 1
    omega
  | holds e =>
    have hchildren : children (Condition.holds e).toJson.sorted = [e.toJson.sorted] := by
      simp only [children, Condition.toJson, Json.ofTagged, Json.member?_sorted]
      rfl
    rw [Condition.toJson] at hchildren ⊢
    rw [structureFault?_ofTagged (conditionTag_mem _) rfl, hchildren, List.findSome?_singleton,
      structureFault?_expression, depthFault?_or, Condition.levels]
    congr 1
    omega

/-! ## Rules and strategies -/

/-- The first fault among the trees of a rule, all at one depth, is that of the condition: an action
is no deeper. -/
theorem findSome?_ruleTrees (maxDepth depth : Nat) (r : Rule) :
    (ruleTrees r).findSome? (structureFault? maxDepth depth) =
      depthFault? maxDepth (depth + r.condition.levels) := by
  rw [ruleTrees, findSome?_cons_eq_or, structureFault?_condition]
  by_cases h : maxDepth < depth + r.condition.levels
  · rw [depthFault?_of_lt h, Option.some_or]
  · rw [depthFault?_of_le (Nat.le_of_not_lt h), Option.none_or, List.findSome?_eq_none_iff]
    intro tree htree
    obtain ⟨a, -, rfl⟩ := List.mem_map.mp htree
    rw [structureFault?_action, depthFault?_of_le]
    omega

/-- The trees of a rule are the children of its own tree. -/
theorem children_rule (r : Rule) : children r.toJson.sorted = ruleTrees r := by
  have hactions : (Action.listToJson r.actions).sorted =
      .array (r.actions.map fun a => a.toJson.sorted) := by
    rw [Action.listToJson, Json.sorted, Json.sortedItems_eq_map, List.map_map]
    rfl
  simp [children, childNames, childListNames, listedChildren, Rule.toJson, Json.member?_sorted,
    List.lookup_cons, hactions, ruleTrees]

/-- A rule as a tree of its own has its condition one level further down. -/
theorem structureFault?_rule (maxDepth depth : Nat) (r : Rule) :
    structureFault? maxDepth depth r.toJson.sorted =
      depthFault? maxDepth (depth + 1 + r.condition.levels) := by
  have htype : r.toJson.sorted.member? "type" = none := Json.member?_sorted _ "type"
  rw [structureFault?_of_tagFault? (tagFault?_of_eq_none htype), children_rule,
    findSome?_ruleTrees, depthFault?_or]
  congr 1
  omega

/-- The trees of the rules are the children of the tree of a strategy. -/
theorem children_strategy (s : Strategy) :
    children s.toJson.sorted = s.rules.map fun r => r.toJson.sorted := by
  have hrules : (Json.array (s.rules.map Rule.toJson)).sorted =
      .array (s.rules.map fun r => r.toJson.sorted) := by
    rw [Json.sorted, Json.sortedItems_eq_map, List.map_map]
    rfl
  simp [children, childNames, childListNames, listedChildren, Strategy.toJson, Json.member?_sorted,
    List.lookup_cons, hrules]

/-- The first fault that some rules have with the depth of their conditions, when each condition has
its root at the given depth. -/
def rulesFault? (maxDepth depth : Nat) (rules : List Rule) : Option Error :=
  rules.findSome? fun r => depthFault? maxDepth (depth + r.condition.levels)

/-- A strategy as a tree of its own has its conditions two levels down. -/
theorem structureFault?_strategy (maxDepth : Nat) (s : Strategy) :
    structureFault? maxDepth 0 s.toJson.sorted = rulesFault? maxDepth 2 s.rules := by
  have htype : s.toJson.sorted.member? "type" = none := Json.member?_sorted _ "type"
  have hroot : structureFault? maxDepth 1 ∘ (fun r : Rule => r.toJson.sorted) =
      fun r => depthFault? maxDepth (2 + r.condition.levels) :=
    funext fun r => structureFault?_rule maxDepth 1 r
  rw [structureFault?_of_tagFault? (tagFault?_of_eq_none htype), children_strategy,
    List.findSome?_map, depthFault?_of_le (Nat.zero_le maxDepth), Option.none_or, hroot,
    rulesFault?]

/-- The first fault among the trees of some rules, each at its root. -/
theorem findSome?_flatMap_ruleTrees (maxDepth : Nat) (rules : List Rule) :
    (rules.flatMap ruleTrees).findSome? (structureFault? maxDepth 0) =
      rulesFault? maxDepth 0 rules := by
  induction rules with
  | nil => rfl
  | cons r rest ih =>
    rw [List.flatMap_cons, List.findSome?_append, findSome?_ruleTrees, ih, rulesFault?, rulesFault?,
      findSome?_cons_eq_or]

/-- Rules are at fault if one of their conditions is too deep. -/
theorem rulesFault?_of_exists {maxDepth depth : Nat} {rules : List Rule}
    (h : ∃ r ∈ rules, maxDepth < depth + r.condition.levels) :
    rulesFault? maxDepth depth rules = some (.maxDepthExceeded maxDepth) := by
  obtain ⟨r, hr, hdeep⟩ := h
  cases hfault : rulesFault? maxDepth depth rules with
  | none =>
    have hnone := List.findSome?_eq_none_iff.mp hfault r hr
    rw [depthFault?_of_lt hdeep] at hnone
    cases hnone
  | some fault =>
    obtain ⟨r', -, hfault'⟩ := List.exists_of_findSome?_eq_some hfault
    by_cases hdeep' : maxDepth < depth + r'.condition.levels
    · rw [depthFault?_of_lt hdeep'] at hfault'
      exact hfault'.symm
    · rw [depthFault?_of_le (Nat.le_of_not_lt hdeep')] at hfault'
      cases hfault'

/-- Rules are at no fault if none of their conditions is too deep. -/
theorem rulesFault?_of_forall {maxDepth depth : Nat} {rules : List Rule}
    (h : ∀ r ∈ rules, depth + r.condition.levels ≤ maxDepth) :
    rulesFault? maxDepth depth rules = none :=
  List.findSome?_eq_none_iff.mpr fun r hr => depthFault?_of_le (h r hr)

/-! ## Validation -/

/-- The outcome of a check that has found a fault, or none. -/
def refusal : Option Error → Except Error Unit
  | some fault => .error fault
  | none => .ok ()

/-- A check behind one that has found nothing decides. -/
theorem refusal_none_bind (next : Except Error Unit) : (refusal none >>= fun _ => next) = next :=
  rfl

theorem checkStructure_eq_refusal (maxDepth : Nat) (root : Json) :
    checkStructure maxDepth root = refusal (structureFault? maxDepth 0 root) := by
  unfold checkStructure
  cases structureFault? maxDepth 0 root <;> rfl

/-- Several trees are refused for the first fault among them. -/
theorem checkStructures_eq_refusal (maxDepth : Nat) (roots : List Json) :
    checkStructures maxDepth roots = refusal (roots.findSome? (structureFault? maxDepth 0)) := by
  induction roots with
  | nil => rfl
  | cons root rest ih =>
    rw [checkStructures, checkStructure_eq_refusal, ih, findSome?_cons_eq_or]
    cases structureFault? maxDepth 0 root <;> rfl

/-- A strategy is refused for the depth of its conditions, or else for its content. -/
theorem validateStrategy_eq (limits : Limits) (s : Strategy) :
    validateStrategy limits s =
      (refusal (rulesFault? limits.maxDepth 0 s.rules) >>=
        fun _ => scanContent s.toJson.sorted) := by
  rw [validateStrategy, checkStructures_eq_refusal, findSome?_flatMap_ruleTrees]

/-- The error with its depth limit, if it has one, raised by some levels. -/
def Error.raiseLimit (levels : Nat) : Error → Error
  | .maxDepthExceeded limit => .maxDepthExceeded (limit + levels)
  | e => e

/-- Under a limit raised by as many levels as the roots are moved down, the faults are the same. -/
theorem rulesFault?_add (maxDepth depth levels : Nat) (rules : List Rule) :
    rulesFault? (maxDepth + levels) (depth + levels) rules =
      (rulesFault? maxDepth depth rules).map (Error.raiseLimit levels) := by
  by_cases h : ∃ r ∈ rules, maxDepth < depth + r.condition.levels
  · have h' : ∃ r ∈ rules, maxDepth + levels < depth + levels + r.condition.levels := by
      obtain ⟨r, hr, hdeep⟩ := h
      exact ⟨r, hr, by omega⟩
    rw [rulesFault?_of_exists h, rulesFault?_of_exists h']
    rfl
  · push Not at h
    rw [rulesFault?_of_forall h, rulesFault?_of_forall]
    · rfl
    · intro r hr
      have := h r hr
      omega

/-- A content is refused for a pattern, which has no depth limit. -/
theorem mapError_scanContent (levels : Nat) (root : Json) :
    (scanContent root).mapError (Error.raiseLimit levels) = scanContent root := by
  unfold scanContent
  split <;> rfl

/-- A strategy as a tree of its own is refused like the strategy, under a limit that is greater by
two. -/
theorem validate_toJson (limits : Limits) (s : Strategy) :
    validate { limits with maxDepth := limits.maxDepth + 2 } s.toJson.sorted =
      (validateStrategy limits s).mapError (Error.raiseLimit 2) := by
  have hfault := rulesFault?_add limits.maxDepth 0 2 s.rules
  rw [Nat.zero_add] at hfault
  rw [validate, checkStructure_eq_refusal, structureFault?_strategy, hfault, validateStrategy_eq]
  cases rulesFault? limits.maxDepth 0 s.rules with
  | some fault => rfl
  | none => rw [Option.map_none, refusal_none_bind, mapError_scanContent]

/-- A strategy with a condition that has too many levels is refused for its depth. -/
theorem validateStrategy_of_exists {limits : Limits} {s : Strategy}
    (h : ∃ r ∈ s.rules, limits.maxDepth < r.condition.levels) :
    validateStrategy limits s = .error (.maxDepthExceeded limits.maxDepth) := by
  rw [validateStrategy_eq, rulesFault?_of_exists]
  · rfl
  · simpa only [Nat.zero_add] using h

/-- A strategy without such a condition is validated by its content alone. -/
theorem validateStrategy_of_forall {limits : Limits} {s : Strategy}
    (h : ∀ r ∈ s.rules, r.condition.levels ≤ limits.maxDepth) :
    validateStrategy limits s = scanContent s.toJson.sorted := by
  rw [validateStrategy_eq, rulesFault?_of_forall, refusal_none_bind]
  simpa only [Nat.zero_add] using h

/-- A content is refused for a pattern only. -/
theorem eq_dangerousPattern_of_scanContent {root : Json} {e : Error}
    (h : scanContent root = .error e) : ∃ pattern, e = .dangerousPattern pattern := by
  unfold scanContent at h
  split at h
  · cases h
    exact ⟨_, rfl⟩
  · cases h

/-- A strategy is refused for its depth or for a pattern in its content. -/
theorem eq_of_validateStrategy {limits : Limits} {s : Strategy} {e : Error}
    (h : validateStrategy limits s = .error e) :
    ((∃ r ∈ s.rules, limits.maxDepth < r.condition.levels) ∧
        e = .maxDepthExceeded limits.maxDepth) ∨
      ∃ pattern, e = .dangerousPattern pattern := by
  by_cases hdeep : ∃ r ∈ s.rules, limits.maxDepth < r.condition.levels
  · rw [validateStrategy_of_exists hdeep] at h
    cases h
    exact Or.inl ⟨hdeep, rfl⟩
  · push Not at hdeep
    rw [validateStrategy_of_forall hdeep] at h
    exact Or.inr (eq_dangerousPattern_of_scanContent h)

/-- **A strategy and its tree are validated alike.** A strategy is refused for its depth exactly if
one of its conditions has more levels than the limit allows; otherwise validation is the scan of the
content of the whole strategy. No tag of a strategy is ever refused, and none is unusable. The tree
of the strategy is validated, under a limit greater by two, with the same outcome up to the limit in
the error. -/
theorem validateStrategy_exact (limits : Limits) (s : Strategy) :
    (validateStrategy limits s = .error (.maxDepthExceeded limits.maxDepth) ↔
      ∃ r ∈ s.rules, limits.maxDepth < r.condition.levels) ∧
    ((∀ r ∈ s.rules, r.condition.levels ≤ limits.maxDepth) →
      validateStrategy limits s = scanContent s.toJson.sorted) ∧
    (∀ tag, validateStrategy limits s ≠ .error (.disallowedOperation tag)) ∧
    (∀ reason, validateStrategy limits s ≠ .error (.invalidTree reason)) ∧
    validate { limits with maxDepth := limits.maxDepth + 2 } s.toJson.sorted =
      (validateStrategy limits s).mapError (Error.raiseLimit 2) := by
  refine ⟨⟨fun h => ?_, validateStrategy_of_exists⟩, validateStrategy_of_forall, fun tag h => ?_,
    fun reason h => ?_, validate_toJson limits s⟩
  · rcases eq_of_validateStrategy h with ⟨hdeep, -⟩ | ⟨pattern, hpattern⟩
    · exact hdeep
    · cases hpattern
  · rcases eq_of_validateStrategy h with ⟨-, hdepth⟩ | ⟨pattern, hpattern⟩
    · cases hdepth
    · cases hpattern
  · rcases eq_of_validateStrategy h with ⟨-, hdepth⟩ | ⟨pattern, hpattern⟩
    · cases hdepth
    · cases hpattern

end TradingRules.Sandbox
