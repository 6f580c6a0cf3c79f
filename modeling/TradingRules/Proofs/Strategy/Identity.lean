/-
# The canonical text identifies the strategy

The value that a strategy is written as determines it, if its numbers are finite: tags, names and
texts are told apart, and what was a number is not taken for anything else. Together with the value,
the text determines it too. Nothing here depends on how deep the strategy nests, so it also holds of
texts that are too deep to be read.
-/
import TradingRules.Proofs.Json.Distinct
import TradingRules.Proofs.Strategy.RoundTrip
import TradingRules.Proofs.Strategy.Shape

namespace TradingRules

open Json (ofTagged)

/-- A finite number is written as a number. -/
theorem Json.ofFloat_of_isFinite {x : Float} (h : x.isFinite = true) :
    Json.ofFloat x = .number (.float x) :=
  if_pos h

/-! ## Expressions and conditions -/

/-- The value of an expression is that of no other one. -/
theorem Expression.ofJson?_toJson {e : Expression} (h : ∀ x ∈ e.numbers, x.isFinite = true) :
    ofJson? e.toJson = some e := by
  cases e with
  | tweetContains text => rfl
  | volume => rfl
  | price => rfl
  | indicator i =>
    obtain ⟨kind, period⟩ := i
    show ofJson? (ofTagged (Tag.indicator kind).name [("period", .ofNat period.toNat)]) = _
    rw [ofJson?_indicator, word?_ofNat]
    rfl
  | literal x =>
    have hx : x.isFinite = true := h x (List.mem_singleton_self x)
    show ofJson? (ofTagged Tag.literal.name [("value", .ofFloat x)]) = _
    rw [Json.ofFloat_of_isFinite hx]
    rfl

/-- The value of a condition is that of no other one. -/
theorem Condition.ofJson?_toJson {c : Condition} (h : ∀ x ∈ c.numbers, x.isFinite = true) :
    ofJson? c.toJson = some c := by
  induction c with
  | join k left right ihl ihr =>
    obtain ⟨hleft, hright⟩ := List.forall_mem_append.mp h
    rw [toJson, ofJson?_ofTagged (.join k) (by simp [Json.tagName]), ofBody?_join, ihl hleft,
      ihr hright]
    rfl
  | compare left k right =>
    obtain ⟨hleft, hright⟩ := List.forall_mem_append.mp h
    rw [toJson, ofJson?_ofTagged .compare (by simp [Json.tagName]), ofBody?_compare,
      left.ofJson?_toJson hleft, ofJson?_comparison, right.ofJson?_toJson hright]
    rfl
  | holds e =>
    rw [toJson, ofJson?_ofTagged .holds (by simp [Json.tagName]), ofBody?]
    show (Expression.ofJson? e.toJson).map Condition.holds = _
    rw [e.ofJson?_toJson h]
    rfl

/-! ## Actions -/

/-- The value of a parameter is that of no other one. -/
theorem Parameter.ofJson?_toJson {p : Parameter} (h : ∀ x ∈ p.numbers, x.isFinite = true) :
    ofJson? p.toJson = some p := by
  cases p with
  | number x =>
    rw [toJson, Json.ofFloat_of_isFinite (h x (List.mem_singleton_self x))]
    rfl
  | text s => rfl

/-- The value of parameters is that of no others. -/
theorem Parameters.ofJson?_toJson {p : Parameters} (h : ∀ x ∈ numbers p, x.isFinite = true) :
    ofJson? (toJson p) = some p := by
  rw [toJson, ofJson?, List.mapM_map, Json.mapM_eq_some_self_iff.mpr]
  · exact congrArg some (Dictionary.ofList_entries p)
  · intro e he
    have hvalue : Parameter.ofJson? e.2.toJson = some e.2 :=
      e.2.ofJson?_toJson fun x hx => h x (List.mem_flatMap.mpr ⟨e, he, hx⟩)
    show (Parameter.ofJson? e.2.toJson).map (e.1, ·) = some e
    rw [hvalue]
    rfl

/-- The value of an action is that of no other one. -/
theorem Action.ofJson?_toJson {a : Action} (h : ∀ x ∈ a.numbers, x.isFinite = true) :
    ofJson? a.toJson = some a := by
  have hfields : Json.tagName ∉ [("parameters", Parameters.toJson a.parameters)].map (·.1) := by
    simp [Json.tagName]
  have hkind : Kind.ofJson? (.string a.kind.word) = some a.kind := ofWord?_word a.kind
  rw [ofJson?, toJson, Json.tagged?_ofTagged hkind hfields]
  show (Parameters.ofJson? (Parameters.toJson a.parameters)).map (Action.mk a.kind) = _
  rw [Parameters.ofJson?_toJson h]
  rfl

/-! ## Rules and strategies -/

/-- The rule with the given canonical value. -/
def Rule.ofCanonical? : Json → Option Rule
  | .object [(_, condition), (_, .array actions)] => do
    return ⟨← Condition.ofJson? condition, ← actions.mapM Action.ofJson?⟩
  | _ => none

theorem Rule.ofCanonical?_toJson {r : Rule} (h : ∀ x ∈ r.numbers, x.isFinite = true) :
    ofCanonical? r.toJson = some r := by
  obtain ⟨hcondition, hactions⟩ := List.forall_mem_append.mp h
  have hmap : (r.actions.map Action.toJson).mapM Action.ofJson? = some r.actions := by
    rw [List.mapM_map, Json.mapM_eq_some_self_iff]
    exact fun a ha => a.ofJson?_toJson fun x hx => hactions x (List.mem_flatMap.mpr ⟨a, ha, hx⟩)
  show (Condition.ofJson? r.condition.toJson >>= fun c =>
    (r.actions.map Action.toJson).mapM Action.ofJson? >>= fun as => some (Rule.mk c as)) = _
  rw [r.condition.ofJson?_toJson hcondition, hmap]
  rfl

namespace Strategy

/-- The strategy with the given canonical value. -/
def ofCanonical? : Json → Option Strategy
  | .object [(_, .string name), (_, .array rules)] => do
    return ⟨name, ← rules.mapM Rule.ofCanonical?⟩
  | _ => none

theorem ofCanonical?_toJson {s : Strategy} (h : ∀ x ∈ s.numbers, x.isFinite = true) :
    ofCanonical? s.toJson = some s := by
  have hmap : (s.rules.map Rule.toJson).mapM Rule.ofCanonical? = some s.rules := by
    rw [List.mapM_map, Json.mapM_eq_some_self_iff]
    exact fun r hr => r.ofCanonical?_toJson fun x hx => h x (List.mem_flatMap.mpr ⟨r, hr, hx⟩)
  show ((s.rules.map Rule.toJson).mapM Rule.ofCanonical? >>= fun rules =>
    some (Strategy.mk s.name rules)) = _
  rw [hmap]
  rfl

/-- **The canonical text identifies the strategy.** Two strategies of finite numbers, however deep they
nest, have the same canonical text only if they are the same. -/
theorem toText_eq_iff {a b : Strategy} (ha : ∀ x ∈ a.numbers, x.isFinite = true)
    (hb : ∀ x ∈ b.numbers, x.isFinite = true) : a.toText = b.toText ↔ a = b := by
  constructor
  · intro htext
    have hvalue : a.toJson = b.toJson := Json.pretty_injective htext
    have hboth : some a = some b := by
      rw [← ofCanonical?_toJson ha, ← ofCanonical?_toJson hb, hvalue]
    exact Option.some.inj hboth
  · rintro rfl
    rfl

/-- A strategy that ends in a comparison with a number, below 200 joins. -/
def deepStrategy (x : Float) : Strategy where
  name := "x"
  rules := [⟨Nat.repeat (Condition.join .and (.holds .price)) 200
    (.compare .price .less (.literal x)), [⟨.sell, .empty⟩]⟩]

/-- Two strategies that are too deep to be read and differ in the sign of a zero only do not have the
same canonical text. -/
theorem toText_deepStrategy_ne :
    ((∀ x ∈ (deepStrategy 0.0).numbers, x.isFinite = true) ∧
        ∀ x ∈ (deepStrategy (-0.0)).numbers, x.isFinite = true) ∧
      Json.nestingLimit < (deepStrategy 0.0).toJson.nesting ∧
      (deepStrategy 0.0).toText ≠ (deepStrategy (-0.0)).toText := by
  have hplus : ∀ x ∈ (deepStrategy 0.0).numbers, x.isFinite = true := by decide +kernel
  have hminus : ∀ x ∈ (deepStrategy (-0.0)).numbers, x.isFinite = true := by decide +kernel
  have hne : deepStrategy 0.0 ≠ deepStrategy (-0.0) := by decide +kernel
  refine ⟨⟨hplus, hminus⟩, by decide +kernel, ?_⟩
  exact fun htext => hne ((toText_eq_iff hplus hminus).mp htext)

end Strategy

end TradingRules
