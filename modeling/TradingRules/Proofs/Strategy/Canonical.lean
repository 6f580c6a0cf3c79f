/-
# The canonical text of a text

A text of a strategy may spell every part of it as an object or as a list, in any order and with
members that are ignored. The canonical text of what is read of it nests no deeper than the text had
to: each part of the strategy was read from a list or an object of its own. So the canonical text is
accepted whenever some text of the strategy is, and writing what is read of it changes nothing, as
long as each number is read back from its own text.
-/
import TradingRules.Proofs.Json.Room
import TradingRules.Proofs.Strategy.RoundTrip
import TradingRules.Proofs.Strategy.Shape

namespace TradingRules

open Json (KeepsRoom)

/-! ## Conditions and actions -/

/-- What spells an expression is a list or an object. -/
theorem Expression.one_le_nesting_of_ofJson? {j : Json} {e : Expression}
    (h : ofJson? j = some e) : 1 ≤ j.nesting := by
  simp only [ofJson?, bind, Option.bind_eq_some_iff] at h
  obtain ⟨⟨tag, body⟩, htagged, -⟩ := h
  exact Json.one_le_nesting_of_tagged? htagged

/-- A condition nests no deeper than what spells it. -/
theorem Condition.nesting_le_of_ofJson? {j : Json} {c : Condition} (h : ofJson? j = some c) :
    c.toJson.nesting ≤ j.nesting := by
  rw [nesting_toJson]
  induction c generalizing j with
  | join k left right ihl ihr =>
    obtain ⟨l, r, hl, hleft, hr, hright⟩ := fieldAt_of_join h
    have hleftLevels : left.levels + 1 ≤ l.nesting := ihl hleft
    have hrightLevels : right.levels + 1 ≤ r.nesting := ihr hright
    have hleftField : l.nesting < j.nesting := hl.nesting_lt
    have hrightField : r.nesting < j.nesting := hr.nesting_lt
    rw [levels]
    omega
  | compare left k right =>
    obtain ⟨l, r, hl, hleft, -, -⟩ := fieldAt_of_compare h
    have hexpression : 1 ≤ l.nesting := left.one_le_nesting_of_ofJson? hleft
    have hfield : l.nesting < j.nesting := hl.nesting_lt
    rw [levels]
    omega
  | holds e =>
    obtain ⟨v, hv, he⟩ := fieldAt_of_holds h
    have hexpression : 1 ≤ v.nesting := e.one_le_nesting_of_ofJson? he
    have hfield : v.nesting < j.nesting := hv.nesting_lt
    rw [levels]
    omega

/-- What spells parameters is an object. -/
theorem Parameters.one_le_nesting_of_ofJson? {j : Json} {p : Parameters}
    (h : ofJson? j = some p) : 1 ≤ j.nesting := by
  unfold ofJson? at h
  split at h
  · exact Nat.le_add_left 1 _
  · cases h

/-- An action nests no deeper than what spells it. -/
theorem Action.nesting_le_of_ofJson? {j : Json} {a : Action} (h : ofJson? j = some a) :
    a.toJson.nesting ≤ j.nesting := by
  obtain ⟨v, hv, hparameters⟩ := fieldAt_of_ofJson? h
  have hobject : 1 ≤ v.nesting := Parameters.one_le_nesting_of_ofJson? hparameters
  have hfield : v.nesting < j.nesting := hv.nesting_lt
  rw [nesting_toJson]
  omega

theorem Condition.keepsRoom_read : KeepsRoom read toJson := by
  have htag : ∀ name, Tag.ofJson? (.string name) = Tag.find? name := fun _ => rfl
  apply KeepsRoom.tagged htag
  intro j tag body c htagged hbody
  apply nesting_le_of_ofJson?
  rw [ofJson?, htagged]
  exact hbody

theorem Action.keepsRoom_read : KeepsRoom read toJson := by
  have htag : ∀ word, Kind.ofJson? (.string word) = Kind.ofWord? word := fun _ => rfl
  apply KeepsRoom.tagged htag
  intro j kind body a htagged hbody
  apply nesting_le_of_ofJson?
  rw [ofJson?, htagged]
  exact hbody

/-! ## Rules and strategies -/

/-- What is stored in the draft of a rule nests no deeper than there was room. -/
structure Rule.Draft.Fits (room : Nat) (draft : Draft) : Prop where
  condition : ∀ c, draft.condition = some c → c.toJson.nesting ≤ room
  actions : ∀ as, draft.actions = some as → (Action.listToJson as).nesting ≤ room

theorem Rule.keepsRoom_read : KeepsRoom read toJson := by
  apply KeepsRoom.record (P := Draft.Fits)
  · intro room
    refine ⟨fun c hc => ?_, fun as has => ?_⟩
    · cases hc
    · cases has
  · intro room place draft draft' t hdraft h
    match place with
    | 0 =>
      obtain ⟨c, hc, h⟩ := bind_eq_ok_iff.mp h
      cases h
      refine ⟨fun c' hc' => ?_, hdraft.actions⟩
      cases hc'
      exact Condition.keepsRoom_read hc
    | _ + 1 =>
      obtain ⟨as, has, h⟩ := bind_eq_ok_iff.mp h
      cases h
      refine ⟨hdraft.condition, fun as' has' => ?_⟩
      cases has'
      exact Action.keepsRoom_read.list has
  · intro room draft r hdraft h
    obtain ⟨c, hc, h⟩ := bind_eq_ok_iff.mp h
    obtain ⟨as, has, h⟩ := bind_eq_ok_iff.mp h
    cases h
    have hcondition := hdraft.condition c (Json.eq_some_of_required hc)
    have hactions := hdraft.actions as (Json.eq_some_of_required has)
    show max c.toJson.nesting (max (Action.listToJson as).nesting 0) + 1 ≤ room + 1
    omega

namespace Strategy

/-- What is stored in the draft of a strategy nests no deeper than there was room. -/
def Draft.Fits (room : Nat) (draft : Draft) : Prop :=
  ∀ rules, draft.rules = some rules → (Json.array (rules.map Rule.toJson)).nesting ≤ room

/-- A strategy that is read nests, when it is written again, no deeper than there was room. -/
theorem keepsRoom_read : KeepsRoom read toJson := by
  apply KeepsRoom.record (P := Draft.Fits)
  · intro room rules h
    cases h
  · intro room place draft draft' t hdraft h
    match place with
    | 0 =>
      obtain ⟨name, -, h⟩ := bind_eq_ok_iff.mp h
      cases h
      exact hdraft
    | _ + 1 =>
      obtain ⟨rules, hrules, h⟩ := bind_eq_ok_iff.mp h
      cases h
      intro rules' hrules'
      cases hrules'
      exact Rule.keepsRoom_read.list hrules
  · intro room draft s hdraft h
    obtain ⟨name, -, h⟩ := bind_eq_ok_iff.mp h
    obtain ⟨rules, hrules, h⟩ := bind_eq_ok_iff.mp h
    cases h
    have hfits := hdraft rules (Json.eq_some_of_required hrules)
    show max 0 (max (Json.array (rules.map Rule.toJson)).nesting 0) + 1 ≤ room + 1
    omega

/-- The strategy of a text nests no deeper, when it is written again, than can be read. -/
theorem nesting_le_of_fromText {text : String} {s : Strategy} (h : fromText text = .ok s) :
    s.toJson.nesting ≤ Json.nestingLimit := by
  obtain ⟨s', hread, h⟩ := bind_eq_ok_iff.mp h
  have hs : s' = s := by
    split at h
    · cases h
    · cases h
      rfl
  rw [← hs]
  exact keepsRoom_read hread

/-! ## Canonical texts -/

/-- **Writing what was read is idempotent.** However a text spells a strategy, the canonical text of
the strategy nests no deeper than can be read. If each number is read back unchanged from its own
text, then the canonical text is accepted, is read as the same strategy and is written in the same
way again; and if some number is not, then it is not read as the same strategy. -/
theorem toText_fromText_idempotent {text : String} {s : Strategy} (h : fromText text = .ok s) :
    s.toJson.nesting ≤ Json.nestingLimit ∧
      (fromText s.toText = .ok s ↔ ∀ x ∈ s.numbers, Json.FloatReadsAs x x) ∧
      ((∀ x ∈ s.numbers, Json.FloatReadsAs x x) →
        ∃ s', fromText s.toText = .ok s' ∧ s' = s ∧ s'.toText = s.toText) := by
  have hnesting : s.toJson.nesting ≤ Json.nestingLimit := nesting_le_of_fromText h
  have hreread : fromText s.toText = .ok s ↔ ∀ x ∈ s.numbers, Json.FloatReadsAs x x := by
    rw [s.yields_fromText_toText.eq_ok_iff, reread_eq_some_self_iff, and_iff_right hnesting]
    simp only [Json.floatReadsAs_iff]
  refine ⟨hnesting, hreread, ?_⟩
  intro hnumbers
  exact ⟨s, hreread.mpr hnumbers, rfl, rfl⟩

/-- A strategy of one rule. -/
def dipStrategy : Strategy :=
  ⟨"dip", [⟨.compare .price .less (.literal 1.5),
    [⟨.buy, Dictionary.ofList [("qty", .number 1)]⟩]⟩]⟩

/-- A text of this strategy, with lists in the place of objects, a member that is ignored, and numbers
that are written in other ways. -/
def dipText : String :=
  "[\"dip\", [\x7b\"note\": [[]], \"actions\": [[\"buy\", \x7b\"qty\": 1\x7d]], " ++
  "\"condition\": \x7b\"left\": [\"price\"], \"operator\": \x7b\"<\": null\x7d, " ++
  "\"type\": \"comparison\", \"right\": \x7b\"type\": \"literal\", \"value\": 15e-1\x7d\x7d\x7d]]"

theorem toText_fromText_dipText :
    (fromText dipText = .ok dipStrategy ∧ ∀ x ∈ dipStrategy.numbers, Json.FloatReadsAs x x) ∧
      dipStrategy.toText ≠ dipText ∧ fromText dipStrategy.toText = .ok dipStrategy := by
  have hread : fromText dipText = .ok dipStrategy := by decide +kernel
  have hnumbers : ∀ x ∈ dipStrategy.numbers, Json.FloatReadsAs x x := by
    have hall : ∀ x ∈ dipStrategy.numbers, Json.rereadFloat x = some x := by decide +kernel
    exact fun x hx => Json.floatReadsAs_iff.mpr (hall x hx)
  obtain ⟨-, hreread, -⟩ := toText_fromText_idempotent hread
  exact ⟨⟨hread, hnumbers⟩, by decide +kernel, hreread.mpr hnumbers⟩

end Strategy

end TradingRules
