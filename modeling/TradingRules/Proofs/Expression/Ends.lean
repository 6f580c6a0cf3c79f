/-
# How an expression begins and ends

An accepted clause begins with the first letter of a keyword, a digit or a point, and ends with a
closing parenthesis, the last letter of a market field, a digit or a point. So no connective can hide
at either end of it.
-/
import TradingRules.Proofs.Expression.Form

namespace TradingRules.Expression

open TradingRules.Text
open TradingRules.Decimal (IsNumeral)

/-- The characters with which an accepted clause may begin. -/
def Opens (c : Char) : Prop := c ∈ ['t', 'p', 'r', 's', 'e', '.'] ∨ c.isDigit = true

/-- The characters with which an accepted clause may end. -/
def Closes (c : Char) : Prop := c ∈ [')', 'e', '.'] ∨ c.isDigit = true

/-- A clause that begins and ends as an accepted one must. -/
def HasEnds (clause : List Char) : Prop :=
  (∃ c, clause.head? = some c ∧ Opens c) ∧ ∃ c, clause.getLast? = some c ∧ Closes c

/-- A call of a word begins with the word and ends with a parenthesis. -/
theorem hasEnds_call {word middle : List Char} {first : Char} (hhead : word.head? = some first)
    (h : Opens first) : HasEnds (word ++ middle ++ [')']) := by
  refine ⟨⟨first, ?_, h⟩, ')', List.getLast?_concat, Or.inl (by decide)⟩
  rw [List.append_assoc, List.head?_append, hhead]
  rfl

/-- A clause in one of the forms has its ends. -/
theorem Form.Spells.hasEnds {f : Form} {clause : List Char} (h : f.Spells clause) :
    HasEnds clause := by
  cases f with
  | tweetContains text =>
    have hcall : IsQuotedCall "tweet.contains".toList text [] clause := h
    obtain ⟨middle, rfl⟩ := hcall.exists_eq_append
    exact hasEnds_call rfl (Or.inl (by decide))
  | volume =>
    cases h
    exact ⟨⟨'t', rfl, Or.inl (by decide)⟩, 'e', rfl, Or.inl (by decide)⟩
  | price =>
    cases h
    exact ⟨⟨'p', rfl, Or.inl (by decide)⟩, 'e', rfl, Or.inl (by decide)⟩
  | indicator kind digits =>
    have hcall : IsIntegerCall kind.keyword.toList digits [] clause := h
    obtain ⟨middle, rfl⟩ := hcall.exists_eq_append
    cases kind <;> exact hasEnds_call rfl (Or.inl (by decide))
  | literal digits fraction =>
    obtain ⟨hne, hplain⟩ := IsNumeral.isPlainChar h
    refine ⟨⟨clause.head hne, List.head?_eq_some_head hne, ?_⟩,
      clause.getLast hne, List.getLast?_eq_some_getLast hne, ?_⟩
    · exact (hplain _ (List.head_mem hne)).symm.imp (fun h => by rw [h]; decide) id
    · exact (hplain _ (List.getLast_mem hne)).symm.imp (fun h => by rw [h]; decide) id

/-- An accepted text has its ends after trimming. -/
theorem hasEnds_of_parse {text : List Char} {e : Expression} (h : parse text = .ok e) :
    HasEnds (trim text) := by
  obtain ⟨f, hspells, -⟩ := exists_spells_of_ofClause h
  exact hspells.hasEnds

end TradingRules.Expression
