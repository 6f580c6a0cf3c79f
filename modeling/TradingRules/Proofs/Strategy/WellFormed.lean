/-
# Well-formed strategies

The readers of conditions, expressions and actions cut one another's texts, and each of them is known
to give something well formed if its text holds none of the braces around a block. The layout of a
source keeps the braces out of the texts of its blocks, so every strategy that is read is well formed.
-/
import TradingRules.Proofs.Action.WellFormed
import TradingRules.Proofs.Condition.WellFormed
import TradingRules.Proofs.Strategy.Reading

namespace TradingRules

open TradingRules.Text

/-- The bounds that hold for a rule. -/
structure Rule.WellFormed (r : Rule) : Prop where
  condition : r.condition.WellFormed
  /-- There is at most one purchase and at most one sale, and the purchase comes first. -/
  kinds : (r.actions.map (·.kind)).Sublist [.buy, .sell]
  actions : ∀ a ∈ r.actions, a.WellFormed

namespace Strategy

/-- The bounds that hold for a strategy. -/
structure WellFormed (s : Strategy) : Prop where
  name : IsQuotable s.name.toList
  rules : ∀ r ∈ s.rules, r.WellFormed

/-- The name that is found may stand between quotes. -/
theorem IsFirstName.isQuotable {source name : List Char} (h : IsFirstName source name) :
    IsQuotable name := by
  obtain ⟨before, after, -, ⟨rest, hcall⟩, -⟩ := h
  exact hcall.isQuotable

/-- The segments of a layout are well formed. -/
theorem Layout.wellFormed {before text : List Char} {segments : List Segment}
    (h : Layout before text segments) : ∀ segment ∈ segments, segment.WellFormed := by
  induction h with
  | done hgap =>
    intro segment hmem
    cases hmem
  | block hgap hif hsegment hrest ih => exact List.forall_mem_cons.mpr ⟨hsegment, ih⟩

/-- A well-formed segment stands for a well-formed rule. -/
theorem Segment.IsReadAs.wellFormed {segment : Segment} {rule : Rule} (h : segment.IsReadAs rule)
    (hsegment : segment.WellFormed) : rule.WellFormed := by
  obtain ⟨hcondition, hactions⟩ := h
  obtain ⟨hkinds, hall⟩ := Action.wellFormed_parse hsegment.body_closed
  rw [← hactions] at hkinds hall
  exact ⟨Condition.wellFormed_of_parse hcondition hsegment.condition_open, hkinds, hall⟩

/-- Well-formed segments stand for well-formed rules. -/
theorem wellFormed_of_forall₂ {segments : List Segment} {rules : List Rule}
    (h : List.Forall₂ Segment.IsReadAs segments rules)
    (hsegments : ∀ segment ∈ segments, segment.WellFormed) : ∀ rule ∈ rules, rule.WellFormed := by
  induction h with
  | nil =>
    intro rule hmem
    cases hmem
  | cons hrule hmore ih =>
    obtain ⟨hfirst, hrest⟩ := List.forall_mem_cons.mp hsegments
    exact List.forall_mem_cons.mpr ⟨hrule.wellFormed hfirst, ih hrest⟩

/-- Every strategy that is read is well formed. -/
theorem wellFormed_of_parse_eq_ok {source : String} {s : Strategy} (h : parse source = .ok s) :
    s.WellFormed := by
  obtain ⟨name, segments, hname, hlayout, hs, hrules⟩ := parse_eq_ok_iff.mp h
  constructor
  case name =>
    rw [hs, String.toList_ofList]
    exact hname.isQuotable
  case rules => exact wellFormed_of_forall₂ hrules hlayout.wellFormed

/-- A source with a signal, an indicator and a number under both connectives, and with orders that
have numbers and texts for parameters. -/
def momentumSource : String :=
  "strategy('momentum') \x7b
    if tweet.contains(\"to the moon\") or price > 0.5 and rsi(14) < 30 \x7b
      sell(BONK) buy(SOL, qty = 1, sl=2%, venue=jupiter)
    \x7d
  \x7d"

/-- The strategy in that source. -/
def momentumStrategy : Strategy where
  name := "momentum"
  rules :=
    [⟨.join .and
        (.join .or (.holds (.tweetContains "to the moon")) (.compare .price .greater (.literal 0.5)))
        (.compare (.indicator ⟨.rsi, 14⟩) .less (.literal 30)),
      [⟨.buy, .ofList [("token", .text "SOL"), ("qty", .number 1), ("sl", .number 2),
          ("venue", .text "jupiter")]⟩,
        ⟨.sell, .ofList [("token", .text "BONK")]⟩]⟩]

/-- The strategy in that source is well formed. -/
theorem wellFormed_momentumStrategy :
    parse momentumSource = .ok momentumStrategy ∧ momentumStrategy.WellFormed := by
  have hparse : parse momentumSource = .ok momentumStrategy := by decide +kernel
  exact ⟨hparse, wellFormed_of_parse_eq_ok hparse⟩

end Strategy

end TradingRules
