/-
# What expressions hold

An expression that is read off a clause holds no more than the clause: the text of a signal occurs in
it, is not empty and holds no quote. A period is positive and fits into 64 bits, and a number is
finite and not negative, since no clause of digits and points begins with a sign.
-/
import TradingRules.Proofs.Decimal.Sign
import TradingRules.Proofs.Expression.Form
import TradingRules.Proofs.Text.Search

namespace TradingRules

namespace Text

/-- A text that may stand between quotes: it is not empty and holds none of them. -/
structure IsQuotable (text : List Char) : Prop where
  ne_nil : text ≠ []
  no_quote : ∀ c ∈ text, isQuote c = false

/-- The text in a quoted call may stand between quotes. -/
theorem IsQuotedCall.isQuotable {word content rest text : List Char}
    (h : IsQuotedCall word content rest text) : IsQuotable content := by
  obtain ⟨ws₁, ws₂, ws₃, q, q', -, -, -, -, -, hne, hquotes, -⟩ := h
  exact ⟨hne, hquotes⟩

/-- The text in a quoted call occurs in the text of the call. -/
theorem IsQuotedCall.isInfix {word content rest text : List Char}
    (h : IsQuotedCall word content rest text) : content <:+: text := by
  obtain ⟨ws₁, ws₂, ws₃, q, q', -, -, -, -, -, -, -, rfl⟩ := h
  refine ⟨word ++ ws₁ ++ '(' :: ws₂ ++ [q], q' :: ws₃ ++ ')' :: rest, ?_⟩
  simp only [List.append_assoc, List.cons_append, List.nil_append]

end Text

namespace Expression

open TradingRules.Text

/-- What can be told of an expression that is read off a clause. -/
def IsTakenFrom (clause : List Char) : Expression → Prop
  | .tweetContains text => IsQuotable text.toList ∧ text.toList <:+: clause
  | .volume => True
  | .price => True
  | .indicator i => 1 ≤ i.period.toNat ∧ i.period.toNat ≤ 2 ^ 64 - 1
  | .literal x => x.isFinite = true ∧ 0.0 ≤ x

/-- An expression is taken from the trimmed clause that it is read off. -/
theorem Form.Spells.isTakenFrom {f : Form} {clause : List Char} {e : Expression}
    (hspells : f.Spells clause) (h : f.outcome clause = .ok e) : e.IsTakenFrom clause := by
  cases f with
  | tweetContains text =>
    cases h
    have hcall : IsQuotedCall "tweet.contains".toList text [] clause := hspells
    show IsQuotable (String.ofList text).toList ∧ (String.ofList text).toList <:+: clause
    rw [String.toList_ofList]
    exact ⟨hcall.isQuotable, hcall.isInfix⟩
  | volume =>
    cases h
    trivial
  | price =>
    cases h
    trivial
  | indicator kind digits =>
    obtain ⟨hbounds, period, hperiod, rfl⟩ := ofDigits_eq_ok_iff.mp h
    show 1 ≤ period.toNat ∧ period.toNat ≤ 2 ^ 64 - 1
    rwa [hperiod]
  | literal digits fraction =>
    -- digits and points are read without a sign
    unfold Form.outcome at h
    simp only at h
    split_ifs at h with hfinite
    cases h
    exact ⟨hfinite, (Decimal.isUnsigned_nearest _ _).nonneg hfinite⟩

/-- What is taken from a part of a clause is taken from the clause. -/
theorem IsTakenFrom.of_isInfix {part clause : List Char} {e : Expression} (h : e.IsTakenFrom part)
    (hpart : part <:+: clause) : e.IsTakenFrom clause := by
  cases e with
  | tweetContains text => exact ⟨h.1, h.2.trans hpart⟩
  | volume => trivial
  | price => trivial
  | indicator i => exact h
  | literal x => exact h

/-- An expression is taken from the clause that it is read off. -/
theorem isTakenFrom_of_parse {clause : List Char} {e : Expression} (h : parse clause = .ok e) :
    e.IsTakenFrom clause := by
  obtain ⟨f, hspells, hread⟩ := exists_spells_of_ofClause h
  exact (hspells.isTakenFrom hread).of_isInfix (trim_isInfix clause)

end Expression

end TradingRules
