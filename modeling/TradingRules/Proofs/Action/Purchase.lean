/-
# Purchases that say what to buy

A purchase is passed over if nothing at all stands between its parentheses. Whether the arguments give
a parameter is not looked at: blanks, commas and pairs without a name make a purchase of nothing, and
the calls behind it are not tried. So a block buys what its leftmost telling call says exactly if the
leftmost call that is not empty tells something.
-/
import TradingRules.Proofs.Action.Orders
import TradingRules.Proofs.Action.Parameters

namespace TradingRules.Action

open TradingRules.Text

/-! ## Arguments that tell something -/

/-- Arguments give a parameter: one of their entries is a token or a pair with a name. -/
def Tells (arguments : List Char) : Prop :=
  ∃ entry ∈ argumentEntries arguments, '=' ∉ entry ∨ ∃ key value, IsPair entry key value

/-- The parameters of arguments are not empty exactly if the arguments tell something. -/
theorem entries_parseParameters_ne_nil_iff {arguments : List Char} :
    (parseParameters arguments).entries ≠ [] ↔ Tells arguments := by
  rw [Dictionary.entries_ne_nil_iff]
  simp only [contains_parseParameters_iff]
  constructor
  · rintro ⟨key, ⟨entry, hentry, value, hpair⟩ | ⟨-, entry, hentry, htoken⟩⟩
    · exact ⟨entry, hentry, Or.inr ⟨key, value, hpair⟩⟩
    · exact ⟨entry, hentry, Or.inl htoken⟩
  · rintro ⟨entry, hentry, htoken | ⟨key, value, hpair⟩⟩
    · exact ⟨tokenName, Or.inr ⟨rfl, entry, hentry, htoken⟩⟩
    · exact ⟨key, Or.inl ⟨entry, hentry, value, hpair⟩⟩

instance : DecidablePred Tells := fun _ =>
  decidable_of_iff _ entries_parseParameters_ne_nil_iff

/-! ## The leftmost telling call -/

/-- A text begins with a purchase whose arguments tell something. -/
def PurchaseAt (arguments text : List Char) : Prop :=
  CallAt .buy arguments text ∧ Tells arguments

/-- The arguments are those of the leftmost purchase that tells something; all others are passed
over. -/
def IsFirstPurchase (arguments text : List Char) : Prop :=
  ∃ before after, text = before ++ after ∧ PurchaseAt arguments after ∧
    ∀ s, s <:+ before → s ≠ [] → ∀ arguments', ¬ PurchaseAt arguments' (s ++ after)

/-- The arguments of the purchase that begins a text, if they tell something. -/
def tellingCall (text : List Char) : Option (List Char) :=
  (Kind.call .buy text).filter fun arguments => Tells arguments

theorem tellingCall_eq_some_iff {text arguments : List Char} :
    tellingCall text = some arguments ↔ PurchaseAt arguments text := by
  rw [tellingCall, Option.filter_eq_some_iff, Kind.call_eq_some_iff_callAt, decide_eq_true_iff]
  exact Iff.rfl

/-- A search for a telling purchase finds the leftmost one. -/
theorem firstAt_tellingCall_eq_some_iff {text arguments : List Char} :
    firstAt tellingCall text = some arguments ↔ IsFirstPurchase arguments text := by
  rw [firstAt_eq_some_iff]
  simp only [tellingCall_eq_some_iff, Option.eq_none_iff_forall_ne_some, ne_eq]
  rfl

/-- If the leftmost purchase tells something, it is the leftmost one that does. -/
theorem IsFirstCall.isFirstPurchase {text arguments : List Char}
    (h : IsFirstCall .buy arguments text) (htells : Tells arguments) :
    IsFirstPurchase arguments text := by
  obtain ⟨before, after, htext, hcall, hfirst⟩ := h
  refine ⟨before, after, htext, ⟨hcall, htells⟩, fun s hs hne arguments' hpurchase => ?_⟩
  exact hfirst s hs hne arguments' hpurchase.1

/-- The purchase of a block is that of its leftmost call with any arguments. -/
theorem mem_parse_buy_iff {text : List Char} {a : Action} :
    a ∈ parse text ∧ a.kind = .buy ↔
      ∃ arguments, IsFirstCall .buy arguments text ∧ a = ⟨.buy, parseParameters arguments⟩ := by
  rw [mem_parse_iff]
  constructor
  · rintro ⟨⟨arguments, hfirst, hparameters⟩, hkind⟩
    rw [hkind] at hfirst
    refine ⟨arguments, hfirst, ?_⟩
    rw [← hkind, ← hparameters]
  · rintro ⟨arguments, hfirst, rfl⟩
    exact ⟨⟨arguments, hfirst, rfl⟩, rfl⟩

/-- **What a block buys.** The purchase of a block has the parameters of the leftmost call whose
parentheses are not empty, and it has one at all exactly if the arguments of this call tell something. So
the purchase is that of the leftmost call that tells something, every other call being passed over,
exactly if the leftmost call whose parentheses are not empty is one of these. -/
theorem purchases_exact (text : List Char) :
    (∀ a, a ∈ parse text ∧ a.kind = .buy ↔
      ∃ arguments, IsFirstCall .buy arguments text ∧ a = ⟨.buy, parseParameters arguments⟩) ∧
    (∀ arguments, (parseParameters arguments).entries ≠ [] ↔ Tells arguments) ∧
    ((∀ arguments, IsFirstCall .buy arguments text → Tells arguments) ↔
      ∀ a, a ∈ parse text ∧ a.kind = .buy ↔
        ∃ arguments, IsFirstPurchase arguments text ∧ a = ⟨.buy, parseParameters arguments⟩) := by
  refine ⟨fun a => mem_parse_buy_iff, fun _ => entries_parseParameters_ne_nil_iff, ?_, ?_⟩
  · intro htells a
    rw [mem_parse_buy_iff]
    constructor
    · rintro ⟨arguments, hfirst, ha⟩
      exact ⟨arguments, hfirst.isFirstPurchase (htells arguments hfirst), ha⟩
    · rintro ⟨arguments, hpurchase, ha⟩
      -- some call stands in the text, so there is a leftmost one, and it is the purchase
      have hstands := hpurchase
      obtain ⟨before, after, htext, ⟨hcall, -⟩, -⟩ := hstands
      obtain ⟨found, hfound⟩ := exists_firstAt_iff.mpr
        ⟨before, after, arguments, htext, Kind.call_eq_some_iff_callAt.mpr hcall⟩
      have hfirst := firstAt_call_eq_some_iff.mp hfound
      have hsame := hfirst.isFirstPurchase (htells found hfirst)
      rw [← firstAt_tellingCall_eq_some_iff] at hpurchase hsame
      rw [hpurchase] at hsame
      cases hsame
      exact ⟨arguments, hfirst, ha⟩
  · intro hpurchases arguments hfirst
    obtain ⟨arguments', hpurchase, hsame⟩ :=
      (hpurchases _).mp (mem_parse_buy_iff.mpr ⟨arguments, hfirst, rfl⟩)
    obtain ⟨-, -, -, ⟨-, htells⟩, -⟩ := hpurchase
    rw [← entries_parseParameters_ne_nil_iff, (Action.mk.inj hsame).2]
    exact entries_parseParameters_ne_nil_iff.mpr htells

/-- A purchase of nothing stands in the way of one that tells something. -/
theorem purchase_of_nothing :
    (∀ arguments ∈ [" ".toList, ",".toList, "= 5".toList],
      ¬ Tells arguments ∧
        parse (Kind.written .buy arguments ++ Kind.written .buy "SOL".toList) =
          [⟨.buy, Dictionary.empty⟩]) ∧
      IsFirstPurchase "SOL".toList
        (Kind.written .buy " ".toList ++ Kind.written .buy "SOL".toList) := by
  constructor
  · decide +kernel
  · exact firstAt_tellingCall_eq_some_iff.mp (by decide +kernel)

end TradingRules.Action
