/-
# Calls in the body of a block

A call of `buy` or `sell` is read off the texts that begin with its word and a pair of parentheses.
What stands behind the parentheses does not matter, and so neither do blanks around a body.
-/
import TradingRules.Action.Parser
import TradingRules.Proofs.Text.Scan
import TradingRules.Proofs.Text.Search

namespace TradingRules.Action

open TradingRules.Text

/-- A call is read exactly off the texts that begin with one; a purchase must have arguments. -/
theorem Kind.call_eq_some_iff {kind : Kind} {text arguments : List Char} :
    kind.call text = some arguments ↔
      ¬ (kind = .buy ∧ arguments = []) ∧ ')' ∉ arguments ∧ ∃ ws rest, AllBlank ws ∧
        text = kind.word.toList ++ (ws ++ '(' :: (arguments ++ ')' :: rest)) := by
  unfold Kind.call
  simp only [Option.bind_eq_bind, Option.bind_eq_some_iff, List.isEmpty_iff]
  constructor
  · rintro ⟨call, hcall, ⟨arguments', rest⟩, hread, h⟩
    rw [afterWord_eq_some_iff] at hcall
    obtain ⟨ws, hws, hmem, rfl⟩ := parenthesized_eq_some_iff.mp hread
    by_cases hempty : kind = .buy ∧ arguments' = []
    · rw [if_pos hempty] at h
      cases h
    · rw [if_neg hempty] at h
      cases h
      exact ⟨hempty, hmem, ws, rest, hws, hcall⟩
  · rintro ⟨hempty, hmem, ws, rest, hws, rfl⟩
    refine ⟨ws ++ '(' :: (arguments ++ ')' :: rest), afterWord_eq_some_iff.mpr rfl,
      (arguments, rest), parenthesized_eq_some_iff.mpr ⟨ws, hws, hmem, rfl⟩, ?_⟩
    rw [if_neg hempty]

/-- No call begins with a blank. -/
theorem Kind.call_of_isBlank (kind : Kind) (c : Char) (rest : List Char) (hc : isBlank c = true) :
    kind.call (c :: rest) = none := by
  rw [Option.eq_none_iff_forall_ne_some]
  intro arguments h
  obtain ⟨-, -, ws, rest', -, htext⟩ := Kind.call_eq_some_iff.mp h
  cases kind with
  | buy =>
    cases htext
    revert hc
    decide
  | sell =>
    cases htext
    revert hc
    decide

/-- Blanks behind a text do not matter to the call that begins it. -/
theorem Kind.call_append (kind : Kind) (text ws : List Char) (hws : AllBlank ws) :
    kind.call (text ++ ws) = kind.call text := by
  ext arguments
  rw [Kind.call_eq_some_iff, Kind.call_eq_some_iff]
  refine and_congr_right fun _ => and_congr_right fun _ => ?_
  constructor
  · rintro ⟨gap, rest, hgap, htext⟩
    have hsplit : text ++ ws =
        (kind.word.toList ++ (gap ++ '(' :: arguments)) ++ ')' :: rest := by
      rw [htext]
      simp only [List.append_assoc, List.cons_append]
    -- the closing parenthesis is no blank, so the whole call stands in front of the blanks
    obtain ⟨tail, rfl⟩ := exists_of_append_allBlank hws (by decide) hsplit
    refine ⟨gap, tail, hgap, ?_⟩
    simp only [List.append_assoc, List.cons_append]
  · rintro ⟨gap, rest, hgap, rfl⟩
    refine ⟨gap, rest ++ ws, hgap, ?_⟩
    simp only [List.append_assoc, List.cons_append]

/-- Blanks around a body do not matter to what it orders. -/
theorem parse_trim (text : List Char) : parse (trim text) = parse text := by
  unfold parse Kind.find
  rw [firstAt_trim (Kind.call_of_isBlank .buy) (Kind.call_append .buy),
    firstAt_trim (Kind.call_of_isBlank .sell) (Kind.call_append .sell)]

end TradingRules.Action
