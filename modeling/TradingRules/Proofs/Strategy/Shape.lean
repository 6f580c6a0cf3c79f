/-
# Where the parts of a strategy stand in its JSON

A strategy that is read from a text stands in the value of that text: every part of it is read from a
field of the value of which it is a part. Each level may be spelled as an object or as a list.
-/
import TradingRules.Proofs.Json.Shape
import TradingRules.Strategy.Json

namespace TradingRules

namespace Json

/-! ## Fields of tagged values -/

/-- What is made of a list item by item. -/
theorem getElem?_of_mapM_eq_some {α β : Type} {f : α → Option β} {xs : List α} {ys : List β}
    (h : xs.mapM f = some ys) {i : Nat} {x : α} {y : β} (hx : xs[i]? = some x)
    (hy : ys[i]? = some y) : f x = some y := by
  induction xs generalizing ys i with
  | nil => cases hx
  | cons x' xs ih =>
    rw [List.mapM_cons] at h
    simp only [bind, Option.bind_eq_some_iff, pure, Option.some.injEq] at h
    obtain ⟨y', hfirst, ys', hrest, rfl⟩ := h
    cases i with
    | zero =>
      cases hx
      cases hy
      exact hfirst
    | succ i => exact ih hrest hx hy

/-- Leaving out the members of another name keeps the only member of a name. -/
theorem onlyMember?_filter_ne {name other : String} (hne : name ≠ other)
    (members : List (String × Json)) :
    onlyMember? name (members.filter (·.1 ≠ other)) = onlyMember? name members := by
  have hnamed : membersNamed name (members.filter (·.1 ≠ other)) = membersNamed name members := by
    unfold membersNamed
    rw [List.filter_filter]
    refine congrArg _ (List.filter_congr fun member _ => ?_)
    by_cases h : member.1 = name
    · simp [h, hne]
    · simp [h]
  rw [onlyMember?, hnamed, onlyMember?]

/-- The fields of a tagged value are fields behind the tag. -/
theorem fieldAt_of_tagged? {τ : Type} {tag? : Json → Option τ} {j : Json} {tag : τ} {body : Body}
    (h : j.tagged? tag? = some (tag, body)) {names : List String} {values : List Json}
    (hfields : body.fields? names = some values) {i : Nat} {name : String} {v : Json}
    (hname : names[i]? = some name) (hne : name ≠ tagName) (hv : values[i]? = some v) :
    FieldAt name (i + 1) j v := by
  unfold tagged? at h
  split at h
  · simp only [bind, Option.bind_eq_some_iff, pure, Option.some.injEq, Prod.mk.injEq] at h
    obtain ⟨_, _, _, _, -, rfl⟩ := h
    have honly := getElem?_of_mapM_eq_some hfields hname hv
    rw [onlyMember?_filter_ne hne] at honly
    exact .member honly
  · simp only [bind, Option.bind_eq_some_iff, pure, Option.some.injEq, Prod.mk.injEq] at h
    obtain ⟨_, _, -, rfl⟩ := h
    rw [Body.fields?] at hfields
    split at hfields
    · cases hfields
      exact .item hv
    · cases hfields
  · cases h

end Json

open Json (BothRead FieldAt eq_some_of_required fieldAt_of_tagged?)

/-! ## Expressions and conditions -/

/-- Only the text of a test of the signal makes one. -/
theorem Expression.eq_of_ofFields?_tweetContains {tag : Tag} {values : List Json} {text : String}
    (h : ofFields? tag values = some (.tweetContains text)) :
    tag = .tweetContains ∧ values = [.string text] := by
  unfold ofFields? at h
  split at h
  · rename_i value
    obtain ⟨_, hvalue, heq⟩ := Option.map_eq_some_iff.mp h
    cases heq
    unfold Json.text? at hvalue
    split at hvalue
    · cases hvalue
      exact ⟨rfl, rfl⟩
    · cases hvalue
  · cases h
  · cases h
  · obtain ⟨_, -, heq⟩ := Option.map_eq_some_iff.mp h
    cases heq
  · obtain ⟨_, -, heq⟩ := Option.map_eq_some_iff.mp h
    cases heq
  · cases h

/-- The text of a test of the signal is a field. -/
theorem Expression.fieldAt_of_tweetContains {j : Json} {text : String}
    (h : ofJson? j = some (.tweetContains text)) : FieldAt "value" 1 j (.string text) := by
  simp only [ofJson?, bind, Option.bind_eq_some_iff] at h
  obtain ⟨⟨tag, body⟩, htagged, values, hvalues, h⟩ := h
  obtain ⟨rfl, rfl⟩ := eq_of_ofFields?_tweetContains h
  exact fieldAt_of_tagged? htagged hvalues (i := 0) rfl (by decide) rfl

namespace Condition

/-- A condition that is read is that of the value of any shape. -/
theorem ofJson?_of_bothRead {j : Json} {c : Condition} (h : BothRead read j c) :
    ofJson? j = some c := by
  obtain ⟨room, t, hj, h⟩ := h
  obtain ⟨⟨tag, body⟩, htagged, h⟩ := bind_eq_ok_iff.mp h
  have hsplit : j.tagged? Tag.ofJson? = some (tag, body) :=
    BothRead.tagged (fun _ => rfl) ⟨room, t, hj, htagged⟩
  rw [ofJson?, hsplit]
  exact eq_some_of_required h

/-- The parts of a connective are fields. -/
theorem fieldAt_of_join {j : Json} {k : Connective} {left right : Condition}
    (h : ofJson? j = some (.join k left right)) :
    ∃ l r, FieldAt "left" 1 j l ∧ ofJson? l = some left ∧
      FieldAt "right" 2 j r ∧ ofJson? r = some right := by
  simp only [ofJson?, bind, Option.bind_eq_some_iff] at h
  obtain ⟨⟨tag, body⟩, htagged, h⟩ := h
  unfold ofBody? at h
  split at h
  · split at h
    · rename_i l r hfields
      split at h
      · rename_i leftTag leftBody rightTag rightBody hl hr
        simp only [bind, Option.bind_eq_some_iff, pure, Option.some.injEq] at h
        obtain ⟨left', hleft, right', hright, heq⟩ := h
        cases heq
        refine ⟨l, r, ?_, ?_, ?_, ?_⟩
        · exact fieldAt_of_tagged? htagged hfields (i := 0) rfl (by decide) rfl
        · rw [ofJson?, hl]
          exact hleft
        · exact fieldAt_of_tagged? htagged hfields (i := 1) rfl (by decide) rfl
        · rw [ofJson?, hr]
          exact hright
      · cases h
    · cases h
  · split at h
    · simp [bind, Option.bind_eq_some_iff] at h
    · cases h
  · split at h
    · simp at h
    · cases h

/-- The operands of a comparison are fields. -/
theorem fieldAt_of_compare {j : Json} {k : Comparison} {left right : Expression}
    (h : ofJson? j = some (.compare left k right)) :
    ∃ l r, FieldAt "left" 1 j l ∧ Expression.ofJson? l = some left ∧
      FieldAt "right" 3 j r ∧ Expression.ofJson? r = some right := by
  simp only [ofJson?, bind, Option.bind_eq_some_iff] at h
  obtain ⟨⟨tag, body⟩, htagged, h⟩ := h
  unfold ofBody? at h
  split at h
  · split at h
    · split at h
      · simp [bind, Option.bind_eq_some_iff] at h
      · cases h
    · cases h
  · split at h
    · rename_i l comparison r hfields
      simp only [bind, Option.bind_eq_some_iff, pure, Option.some.injEq] at h
      obtain ⟨left', hleft, _, -, right', hright, heq⟩ := h
      cases heq
      refine ⟨l, r, ?_, hleft, ?_, hright⟩
      · exact fieldAt_of_tagged? htagged hfields (i := 0) rfl (by decide) rfl
      · exact fieldAt_of_tagged? htagged hfields (i := 2) rfl (by decide) rfl
    · cases h
  · split at h
    · simp at h
    · cases h

/-- The expression of a test is a field. -/
theorem fieldAt_of_holds {j : Json} {e : Expression} (h : ofJson? j = some (.holds e)) :
    ∃ v, FieldAt "expression" 1 j v ∧ Expression.ofJson? v = some e := by
  simp only [ofJson?, bind, Option.bind_eq_some_iff] at h
  obtain ⟨⟨tag, body⟩, htagged, h⟩ := h
  unfold ofBody? at h
  split at h
  · split at h
    · split at h
      · simp [bind, Option.bind_eq_some_iff] at h
      · cases h
    · cases h
  · split at h
    · simp [bind, Option.bind_eq_some_iff] at h
    · cases h
  · split at h
    · rename_i v hfields
      obtain ⟨e', he, heq⟩ := Option.map_eq_some_iff.mp h
      cases heq
      exact ⟨v, fieldAt_of_tagged? htagged hfields (i := 0) rfl (by decide) rfl, he⟩
    · cases h

end Condition

/-! ## Actions -/

namespace Action

/-- The kind of order that a value names. -/
def Kind.ofJson? (j : Json) : Option Kind :=
  j.text?.bind ofWord?

/-- The action that a value is. -/
def ofJson? (j : Json) : Option Action := do
  let (kind, body) ← j.tagged? Kind.ofJson?
  ofBody? kind body

/-- An action that is read is that of the value of any shape. -/
theorem ofJson?_of_bothRead {j : Json} {a : Action} (h : BothRead read j a) :
    ofJson? j = some a := by
  obtain ⟨room, t, hj, h⟩ := h
  obtain ⟨⟨kind, body⟩, htagged, h⟩ := bind_eq_ok_iff.mp h
  have hsplit : j.tagged? Kind.ofJson? = some (kind, body) :=
    BothRead.tagged (fun _ => rfl) ⟨room, t, hj, htagged⟩
  rw [ofJson?, hsplit]
  exact eq_some_of_required h

/-- The parameters of an action are a field. -/
theorem fieldAt_of_ofJson? {j : Json} {a : Action} (h : ofJson? j = some a) :
    ∃ v, FieldAt "parameters" 1 j v ∧ Parameters.ofJson? v = some a.parameters := by
  simp only [ofJson?, bind, Option.bind_eq_some_iff] at h
  obtain ⟨⟨kind, body⟩, htagged, h⟩ := h
  unfold ofBody? at h
  split at h
  · rename_i v hfields
    obtain ⟨parameters, hparameters, rfl⟩ := Option.map_eq_some_iff.mp h
    exact ⟨v, fieldAt_of_tagged? htagged hfields (i := 0) rfl (by decide) rfl, hparameters⟩
  · cases h

end Action

/-! ## Rules and strategies -/

/-- A rule is read from a value: its condition from the field of that name, and its actions from the
items of the other one. -/
structure Rule.IsReadFrom (r : Rule) (j : Json) : Prop where
  condition : ∃ v, FieldAt "condition" 0 j v ∧ Condition.ofJson? v = some r.condition
  actions : ∃ items, FieldAt "actions" 1 j (.array items) ∧
    List.Forall₂ (fun item a => Action.ofJson? item = some a) items r.actions

/-- A strategy is read from a value: its name from the field of that name, and its rules from the
items of the other one. -/
structure Strategy.IsReadFrom (s : Strategy) (j : Json) : Prop where
  name : FieldAt "name" 0 j (.string s.name)
  rules : ∃ items, FieldAt "rules" 1 j (.array items) ∧
    List.Forall₂ (fun item r => r.IsReadFrom item) items s.rules

theorem Rule.stores_condition : shape.Stores "condition" 0 Condition.read Draft.condition :=
  Json.RecordShape.stores_of_pair (fun c draft => { draft with condition := some c })
    (fun actions draft => { draft with actions := some actions }) rfl rfl (fun _ _ _ => rfl)
    (fun _ _ _ => rfl) (fun _ _ => rfl) fun _ _ => rfl

theorem Rule.stores_actions :
    shape.Stores "actions" 1 (fun room t => t.readList room Action.read) Draft.actions :=
  Json.RecordShape.stores_of_pair (fun actions draft => { draft with actions := some actions })
    (fun c draft => { draft with condition := some c }) rfl rfl (fun _ _ _ => rfl)
    (fun _ _ _ => rfl) (fun _ _ => rfl) fun _ _ => rfl

/-- A rule that is read is read from the value of any shape. -/
theorem Rule.isReadFrom_of_bothRead {j : Json} {r : Rule} (h : BothRead read j r) :
    r.IsReadFrom j := by
  obtain ⟨draft, hcomplete, hfield⟩ := BothRead.record h
  obtain ⟨c, hc, hcomplete⟩ := bind_eq_ok_iff.mp hcomplete
  obtain ⟨as, has, hcomplete⟩ := bind_eq_ok_iff.mp hcomplete
  cases hcomplete
  obtain ⟨v, hv, hread⟩ := hfield stores_condition rfl c (eq_some_of_required hc)
  obtain ⟨w, hw, hlist⟩ := hfield stores_actions rfl as (eq_some_of_required has)
  obtain ⟨items, rfl, hitems⟩ := BothRead.list hlist
  exact {
    condition := ⟨v, hv, Condition.ofJson?_of_bothRead hread⟩
    actions := ⟨items, hw, hitems.imp fun _ _ => Action.ofJson?_of_bothRead⟩ }

theorem Strategy.stores_name : shape.Stores "name" 0 (fun _ t => t.readText) Draft.name :=
  Json.RecordShape.stores_of_pair (fun name draft => { draft with name := some name })
    (fun rules draft => { draft with rules := some rules }) rfl rfl (fun _ _ _ => rfl)
    (fun _ _ _ => rfl) (fun _ _ => rfl) fun _ _ => rfl

theorem Strategy.stores_rules :
    shape.Stores "rules" 1 (fun room t => t.readList room Rule.read) Draft.rules :=
  Json.RecordShape.stores_of_pair (fun rules draft => { draft with rules := some rules })
    (fun name draft => { draft with name := some name }) rfl rfl (fun _ _ _ => rfl)
    (fun _ _ _ => rfl) (fun _ _ => rfl) fun _ _ => rfl

/-- A strategy that is read is read from the value of any shape. -/
theorem Strategy.isReadFrom_of_bothRead {j : Json} {s : Strategy} (h : BothRead read j s) :
    s.IsReadFrom j := by
  obtain ⟨draft, hcomplete, hfield⟩ := BothRead.record h
  obtain ⟨name, hname, hcomplete⟩ := bind_eq_ok_iff.mp hcomplete
  obtain ⟨rules, hrules, hcomplete⟩ := bind_eq_ok_iff.mp hcomplete
  cases hcomplete
  obtain ⟨v, hv, htext⟩ := hfield stores_name rfl name (eq_some_of_required hname)
  obtain rfl := BothRead.text htext
  obtain ⟨w, hw, hlist⟩ := hfield stores_rules rfl rules (eq_some_of_required hrules)
  obtain ⟨items, rfl, hitems⟩ := BothRead.list hlist
  exact {
    name := hv
    rules := ⟨items, hw, hitems.imp fun _ _ => Rule.isReadFrom_of_bothRead⟩ }

/-- The strategy of a text is read from the value of the text. -/
theorem Strategy.exists_isReadFrom {text : String} {v : Json} {s : Strategy}
    (hv : Json.parse text = .ok v) (hs : fromText text = .ok s) :
    ∃ j, v = j.sorted ∧ s.IsReadFrom j := by
  obtain ⟨j, hj, hread⟩ := Json.exists_bothRead hv hs
  exact ⟨j, hj, isReadFrom_of_bothRead hread⟩

end TradingRules
