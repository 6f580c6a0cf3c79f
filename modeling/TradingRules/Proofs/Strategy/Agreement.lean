/-
# Reading back up to agreement

Two strategies agree if they are alike up to the sign of zeros. What was written agrees with what is
read of it if each of its numbers does, from expressions up to strategies.
-/
import TradingRules.Proofs.Strategy.Reread

namespace TradingRules

/-- Whether a number is equal to what its text is read as. -/
def Json.readsAlike (x : Float) : Bool :=
  (rereadFloat x).any (· == x)

open Json (readsAlike)

/-- An expression agrees with what is read of it if its number does. -/
theorem Expression.any_agrees_reread (e : Expression) :
    e.reread.any (·.agrees e) = e.numbers.all readsAlike := by
  cases e with
  | literal x =>
    rw [reread, numbers, List.all_cons, List.all_nil, Bool.and_true, readsAlike]
    cases Json.rereadFloat x <;> simp [agrees]
  | _ => simp [reread, numbers, agrees]

/-- A condition agrees with what is read of it if its numbers do. -/
theorem Condition.any_agrees_reread (c : Condition) :
    c.reread.any (·.agrees c) = c.numbers.all readsAlike := by
  induction c with
  | join k left right ihl ihr =>
    rw [numbers, List.all_append, ← ihl, ← ihr, reread]
    cases left.reread <;> cases right.reread <;> simp [agrees]
  | compare left k right =>
    rw [numbers, List.all_append, ← left.any_agrees_reread, ← right.any_agrees_reread, reread]
    cases left.reread <;> cases right.reread <;> simp [agrees]
  | holds e =>
    rw [numbers, ← e.any_agrees_reread, reread]
    cases e.reread <;> simp [agrees]

/-- Lists agree item by item with what is read of them. -/
theorem any_listAgrees_mapM {α : Type} (agrees : α → α → Bool) (reread : α → Option α)
    (as : List α) : (as.mapM reread).any (listAgrees agrees · as) =
      as.all fun a => (reread a).any (agrees · a) := by
  induction as with
  | nil => rfl
  | cons a rest ih =>
    rw [List.mapM_cons, List.all_cons, ← ih]
    cases reread a with
    | none => rfl
    | some a' => cases rest.mapM reread <;> simp [listAgrees]

/-- A parameter agrees with what is read of it if its number does. -/
theorem Parameter.any_agrees_reread (p : Parameter) :
    p.reread.any (·.agrees p) = p.numbers.all readsAlike := by
  cases p with
  | number x =>
    rw [reread, numbers, List.all_cons, List.all_nil, Bool.and_true, readsAlike]
    cases Json.rereadFloat x <;> simp [agrees]
  | text s => simp [reread, numbers, agrees]

/-- An action agrees with what is read of it if its numbers do. -/
theorem Action.any_agrees_reread (a : Action) :
    a.reread.any (·.agrees a) = a.numbers.all readsAlike := by
  have hentry : ∀ e : String × Parameter,
      (Parameters.rereadEntry e).any (fun e' => e'.1 = e.1 && e'.2.agrees e.2) =
        e.2.numbers.all readsAlike := by
    intro e
    rw [← e.2.any_agrees_reread, Parameters.rereadEntry]
    cases e.2.reread <;> simp
  have hentries := any_listAgrees_mapM (fun e' e => e'.1 = e.1 && e'.2.agrees e.2)
    Parameters.rereadEntry a.parameters.entries
  simp only [hentry] at hentries
  rw [numbers, Parameters.numbers, List.all_flatMap, ← hentries, reread, Parameters.reread]
  cases hread : a.parameters.entries.mapM Parameters.rereadEntry with
  | none => rfl
  | some entries => simp [agrees, Parameters.entries_ofList_of_mapM hread]

/-- A rule agrees with what is read of it if its numbers do. -/
theorem Rule.any_agrees_reread (r : Rule) :
    r.reread.any (·.agrees r) = r.numbers.all readsAlike := by
  have hactions := any_listAgrees_mapM Action.agrees Action.reread r.actions
  simp only [Action.any_agrees_reread] at hactions
  rw [numbers, List.all_append, List.all_flatMap, ← r.condition.any_agrees_reread, ← hactions,
    reread]
  cases r.condition.reread <;> cases r.actions.mapM Action.reread <;> simp [agrees]

/-- A strategy agrees with what is read of it if its numbers do. -/
theorem Strategy.any_agrees_reread (s : Strategy) :
    s.reread.any (·.agrees s) = s.numbers.all readsAlike := by
  have hrules := any_listAgrees_mapM Rule.agrees Rule.reread s.rules
  simp only [Rule.any_agrees_reread] at hrules
  rw [numbers, List.all_flatMap, ← hrules, reread]
  cases s.rules.mapM Rule.reread <;> simp [agrees]

end TradingRules
