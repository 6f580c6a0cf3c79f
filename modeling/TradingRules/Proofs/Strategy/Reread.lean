/-
# Rules and strategies that were written

A rule or a strategy that was written as JSON is read as it was, but for its numbers, each of which
is read as its text is. So it is read unchanged if each of its numbers is.
-/
import TradingRules.Strategy.Json
import TradingRules.Proofs.Action.Reread
import TradingRules.Proofs.Condition.Reread

namespace TradingRules

open Json (Yields rereadFloat)

/-! ## Rules -/

namespace Rule

/-- The numbers in a rule. -/
def numbers (r : Rule) : List Float :=
  r.condition.numbers ++ r.actions.flatMap Action.numbers

/-- A rule with its numbers as they are read. -/
def reread (r : Rule) : Option Rule := do
  return ⟨← r.condition.reread, ← r.actions.mapM Action.reread⟩

/-- A rule is read unchanged if its numbers are. -/
theorem reread_eq_some_self_iff {r : Rule} :
    r.reread = some r ↔ ∀ x ∈ r.numbers, rereadFloat x = some x := by
  rw [numbers, List.forall_mem_append, ← Condition.reread_eq_some_self_iff,
    List.forall_mem_flatMap]
  simp only [← Action.reread_eq_some_self_iff]
  rw [← Json.mapM_eq_some_self_iff]
  obtain ⟨condition, actions⟩ := r
  simp [reread, Option.bind_eq_some_iff]

/-- A draft is completed by what was read of both fields. -/
theorem Draft.yields_complete (draft : Draft) :
    Yields draft.complete True (draft.condition.bind fun c => draft.actions.map (⟨c, ·⟩)) := by
  obtain ⟨condition, actions⟩ := draft
  cases condition with
  | none => exact .error _ _
  | some c =>
    cases actions with
    | none => exact .error _ _
    | some as => exact .ok _

/-- A rule that was written is read as it was but for its numbers, if there is room for it. -/
theorem yields_read (r : Rule) (room : Nat) :
    Yields (read room r.toJson.tree) (r.toJson.nesting ≤ room) r.reread := by
  have hcondition : ∀ room, Yields (shape.store room 0 {} r.condition.toJson.tree)
      (r.condition.toJson.nesting ≤ room) (r.condition.reread.map fun c => ⟨some c, none⟩) :=
    fun room => (r.condition.yields_read room).map _
  have hactions : ∀ room (draft : Draft),
      Yields (shape.store room 1 draft (Action.listToJson r.actions).tree)
        ((Action.listToJson r.actions).nesting ≤ room)
        ((r.actions.mapM Action.reread).map fun as => ⟨draft.condition, some as⟩) :=
    fun room _ => (Json.yields_readList Action.yields_read r.actions room).map _
  have hread := Json.yields_record rfl (by decide) hcondition hactions Draft.yields_complete room
  have hvalue : ((r.condition.reread.map fun c => (⟨some c, none⟩ : Draft)).bind fun draft =>
      ((r.actions.mapM Action.reread).map fun as => (⟨draft.condition, some as⟩ : Draft)).bind
        fun draft => draft.condition.bind fun c => draft.actions.map (⟨c, ·⟩)) = r.reread := by
    rw [reread]
    cases r.condition.reread with
    | none => rfl
    | some c => cases r.actions.mapM Action.reread <;> rfl
  rw [hvalue] at hread
  exact hread

end Rule

/-! ## Strategies -/

namespace Strategy

/-- The numbers in a strategy. -/
def numbers (s : Strategy) : List Float :=
  s.rules.flatMap Rule.numbers

/-- A strategy with its numbers as they are read. -/
def reread (s : Strategy) : Option Strategy :=
  (s.rules.mapM Rule.reread).map (⟨s.name, ·⟩)

/-- A strategy is read unchanged if its numbers are. -/
theorem reread_eq_some_self_iff {s : Strategy} :
    s.reread = some s ↔ ∀ x ∈ s.numbers, rereadFloat x = some x := by
  rw [numbers, List.forall_mem_flatMap]
  simp only [← Rule.reread_eq_some_self_iff]
  rw [← Json.mapM_eq_some_self_iff]
  obtain ⟨name, rules⟩ := s
  simp [reread]

/-- A draft is completed by what was read of both fields. -/
theorem Draft.yields_complete (draft : Draft) :
    Yields draft.complete True (draft.name.bind fun name => draft.rules.map (⟨name, ·⟩)) := by
  obtain ⟨name, rules⟩ := draft
  cases name with
  | none => exact .error _ _
  | some name =>
    cases rules with
    | none => exact .error _ _
    | some rules => exact .ok _

/-- A text is read as it was written. -/
theorem yields_readText (text : String) (room : Nat) :
    Yields (Json.string text).tree.readText ((Json.string text).nesting ≤ room) (some text) :=
  (Yields.ok text).congr (iff_of_true trivial (Nat.zero_le room))

/-- A strategy that was written is read as it was but for its numbers, if there is room for it. -/
theorem yields_read (s : Strategy) (room : Nat) :
    Yields (read room s.toJson.tree) (s.toJson.nesting ≤ room) s.reread := by
  have hname : ∀ room, Yields (shape.store room 0 {} (Json.string s.name).tree)
      ((Json.string s.name).nesting ≤ room) (some ⟨some s.name, none⟩) :=
    fun room => (yields_readText s.name room).map _
  have hrules : ∀ room (draft : Draft),
      Yields (shape.store room 1 draft (Json.array (s.rules.map Rule.toJson)).tree)
        ((Json.array (s.rules.map Rule.toJson)).nesting ≤ room)
        ((s.rules.mapM Rule.reread).map fun rules => ⟨draft.name, some rules⟩) :=
    fun room _ => (Json.yields_readList Rule.yields_read s.rules room).map _
  have hread := Json.yields_record rfl (by decide) hname hrules Draft.yields_complete room
  have hvalue : ((some (⟨some s.name, none⟩ : Draft)).bind fun draft =>
      ((s.rules.mapM Rule.reread).map fun rules => (⟨draft.name, some rules⟩ : Draft)).bind
        fun draft => draft.name.bind fun name => draft.rules.map (⟨name, ·⟩)) = s.reread := by
    rw [reread]
    cases s.rules.mapM Rule.reread <;> rfl
  rw [hvalue] at hread
  exact hread

/-- The canonical text of a strategy is read as the strategy was but for its numbers, if it nests no
deeper than can be read. -/
theorem yields_fromText_toText (s : Strategy) :
    Yields (fromText s.toText) (s.toJson.nesting ≤ Json.nestingLimit) s.reread := by
  rw [fromText, toText, Json.readWith_pretty]
  exact s.yields_read Json.nestingLimit

end Strategy

end TradingRules
