/-
# Members of sorted values

Sorting the members of an object changes their places, not what is found under a name: the last of
several members of one name, with everything below it sorted as well.
-/
import TradingRules.Json.Basic
import TradingRules.Proofs.Dictionary

namespace TradingRules

namespace Json

/-- Every item is sorted, and they keep their order. -/
theorem sortedItems_eq_map (items : List Json) : sortedItems items = items.map sorted := by
  induction items with
  | nil => rfl
  | cons item rest ih => rw [sortedItems, List.map_cons, ih]

/-- Under a name stands the last member of that name, or else what stood there before. -/
theorem lookup_sortedMembers (done members : List (String × Json)) (name : String) :
    (sortedMembers done members).lookup name =
      ((members.reverse.lookup name).map sorted).or (done.lookup name) := by
  induction members generalizing done with
  | nil => rfl
  | cons member rest ih =>
    obtain ⟨name', value⟩ := member
    rw [sortedMembers, ih, Dictionary.lookup_putEntry, List.reverse_cons, List.lookup_append,
      List.lookup_cons, List.lookup_nil]
    by_cases h : name = name'
    · rw [if_pos h, beq_iff_eq.mpr h]
      cases rest.reverse.lookup name <;> rfl
    · rw [if_neg h, beq_eq_false_iff_ne.mpr h]
      cases rest.reverse.lookup name <;> rfl

/-- The member of a sorted object is the last one of its name, sorted. -/
theorem member?_sorted (members : List (String × Json)) (name : String) :
    (object members).sorted.member? name = (members.reverse.lookup name).map sorted := by
  rw [sorted, member?, lookup_sortedMembers, List.lookup_nil, Option.or_none]

end Json

end TradingRules
