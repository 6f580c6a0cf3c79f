/-
# Expressions and conditions that were written

An expression or a condition that was written as JSON is read as it was, but for its numbers, each
of which is read as its text is.
-/
import TradingRules.Condition.Json
import TradingRules.Proofs.Json.Reading

namespace TradingRules

open Json (Yields ofTagged rereadFloat rereadMembers)

/-! ## Expressions -/

namespace Expression

/-- The numbers in an expression. -/
def numbers : Expression → List Float
  | .literal x => [x]
  | .tweetContains _ | .volume | .price | .indicator _ => []

/-- An expression with its number as it is read. -/
def reread : Expression → Option Expression
  | .literal x => (rereadFloat x).map .literal
  | .tweetContains text => some (.tweetContains text)
  | .volume => some .volume
  | .price => some .price
  | .indicator i => some (.indicator i)

/-- An expression is read unchanged if its number is. -/
theorem reread_eq_some_self_iff {e : Expression} :
    e.reread = some e ↔ ∀ x ∈ e.numbers, rereadFloat x = some x := by
  cases e <;> simp [reread, numbers]

/-- A number of bars fits into 64 bits, so its numeral is an integer. -/
theorem reread_ofNat (period : UInt64) :
    (Json.ofNat period.toNat).reread = some (Json.ofNat period.toNat) := by
  show Option.map Json.number (Json.Number.integer period.toNat).numeral.value? = _
  rw [Json.value?_numeral_ofNat period.toNat_lt]
  rfl

/-- A number of bars is read as it was written. -/
theorem word?_ofNat (period : UInt64) : (Json.ofNat period.toNat).word? = some period := by
  have hfits : period.toNat < Text.wordBound := period.toNat_lt
  show (if period.toNat < Text.wordBound then some (UInt64.ofNat period.toNat) else none) = _
  rw [if_pos hfits, UInt64.ofNat_toNat]

/-- An indicator is read with the number of bars that stands in its only field. -/
theorem ofJson?_indicator (kind : Indicator.Kind) (period : Json) :
    ofJson? (ofTagged (Tag.indicator kind).name [("period", period)]) =
      period.word?.map fun period => .indicator ⟨kind, period⟩ := by
  cases kind <;> rfl

/-- An expression that was written is read as it was but for its number. -/
theorem bind_ofJson?_reread (e : Expression) : e.toJson.reread.bind ofJson? = e.reread := by
  cases e with
  | tweetContains text => rfl
  | volume => rfl
  | price => rfl
  | indicator i =>
    obtain ⟨kind, period⟩ := i
    show (ofTagged (Tag.indicator kind).name [("period", .ofNat period.toNat)]).reread.bind _ = _
    rw [Json.reread_ofTagged_singleton, reread_ofNat]
    show ofJson? _ = _
    rw [ofJson?_indicator, word?_ofNat]
    rfl
  | literal x =>
    show (ofTagged Tag.literal.name [("value", .ofFloat x)]).reread.bind _ = _
    rw [Json.reread_ofTagged_singleton, reread, rereadFloat]
    cases (Json.ofFloat x).reread <;> rfl

end Expression

/-! ## Conditions -/

namespace Condition

/-- The numbers in a condition. -/
def numbers : Condition → List Float
  | .join _ left right => left.numbers ++ right.numbers
  | .compare left _ right => left.numbers ++ right.numbers
  | .holds e => e.numbers

/-- A condition with its numbers as they are read. -/
def reread : Condition → Option Condition
  | .join c left right => do return .join c (← left.reread) (← right.reread)
  | .compare left c right => do return .compare (← left.reread) c (← right.reread)
  | .holds e => e.reread.map .holds

/-- A condition is read unchanged if its numbers are. -/
theorem reread_eq_some_self_iff {c : Condition} :
    c.reread = some c ↔ ∀ x ∈ c.numbers, rereadFloat x = some x := by
  induction c with
  | join k left right ihl ihr =>
    rw [numbers, List.forall_mem_append, ← ihl, ← ihr]
    simp [reread, Option.bind_eq_some_iff]
  | compare left k right =>
    rw [numbers, List.forall_mem_append, ← Expression.reread_eq_some_self_iff,
      ← Expression.reread_eq_some_self_iff]
    simp [reread, Option.bind_eq_some_iff]
  | holds e =>
    rw [numbers, ← Expression.reread_eq_some_self_iff]
    simp [reread]

/-- The name of a kind of condition is the one of no other kind. -/
theorem find?_name (tag : Tag) : Tag.find? tag.name = some tag := by
  cases tag with
  | join k => cases k <;> rfl
  | compare => rfl
  | holds => rfl

theorem ofJson?_name (tag : Tag) : Tag.ofJson? (.string tag.name) = some tag :=
  find?_name tag

/-- The condition of a written kind and fields. -/
theorem ofJson?_ofTagged (tag : Tag) {fields : List (String × Json)}
    (hfields : Json.tagName ∉ fields.map (·.1)) :
    ofJson? (ofTagged tag.name fields) = ofBody? tag (.members fields) := by
  rw [ofJson?, Json.tagged?_ofTagged (ofJson?_name tag) hfields]
  rfl

/-- Two conditions are joined after each is read. -/
theorem ofBody?_join (k : Connective) (left right : Json) :
    ofBody? (.join k) (.members [("left", left), ("right", right)]) =
      (ofJson? left).bind fun left => (ofJson? right).bind fun right =>
        some (.join k left right) := by
  have hfields : (Json.Body.members [("left", left), ("right", right)]).fields?
      ["left", "right"] = some [left, right] := rfl
  rw [ofBody?, ofJson?, ofJson?]
  split
  · rename_i left' right' heq
    rw [hfields] at heq
    cases heq
    split
    · rename_i hl hr
      rw [hl, hr]
      rfl
    · rename_i hnone
      cases hl : left.tagged? Tag.ofJson? with
      | none => rfl
      | some l =>
        cases hr : right.tagged? Tag.ofJson? with
        | none =>
          obtain ⟨leftTag, leftBody⟩ := l
          show none = Option.bind (ofBody? leftTag leftBody) fun _ => none
          rw [Option.bind_fun_none]
        | some r => exact (hnone _ _ _ _ hl hr).elim
  · rename_i hother
    exact (hother left right hfields).elim

/-- Two expressions are compared after each is read. -/
theorem ofBody?_compare (left comparison right : Json) :
    ofBody? .compare
        (.members [("left", left), ("operator", comparison), ("right", right)]) = do
      return .compare (← Expression.ofJson? left) (← Comparison.ofJson? comparison)
        (← Expression.ofJson? right) := by
  rw [ofBody?]
  rfl

/-- A comparison is read as it was written. -/
theorem ofJson?_comparison (k : Comparison) : Comparison.ofJson? k.toJson = some k := by
  cases k <;> rfl

/-- A condition that was written is read as it was but for its numbers. -/
theorem bind_ofJson?_reread (c : Condition) : c.toJson.reread.bind ofJson? = c.reread := by
  induction c with
  | join k left right ihl ihr =>
    rw [toJson, Json.reread_ofTagged, rereadMembers, rereadMembers, rereadMembers, reread, ← ihl,
      ← ihr]
    -- the numbers of both sides are read before either side is taken for a condition
    cases left.toJson.reread with
    | none => rfl
    | some left =>
      cases right.toJson.reread with
      | none =>
        show none = Option.bind (ofJson? left) fun _ => none
        rw [Option.bind_fun_none]
      | some right =>
        show ofJson? (ofTagged (Tag.join k).name [("left", left), ("right", right)]) = _
        rw [ofJson?_ofTagged (.join k) (by simp [Json.tagName]), ofBody?_join]
        rfl
  | compare left k right =>
    have hk : k.toJson.reread = some k.toJson := rfl
    rw [toJson, Json.reread_ofTagged, rereadMembers, rereadMembers, rereadMembers, rereadMembers,
      reread, ← left.bind_ofJson?_reread, ← right.bind_ofJson?_reread, hk]
    cases left.toJson.reread with
    | none => rfl
    | some left =>
      cases right.toJson.reread with
      | none =>
        show none = Option.bind (Expression.ofJson? left) fun _ => none
        rw [Option.bind_fun_none]
      | some right =>
        show ofJson? (ofTagged Tag.compare.name
          [("left", left), ("operator", k.toJson), ("right", right)]) = _
        rw [ofJson?_ofTagged .compare (by simp [Json.tagName]), ofBody?_compare, ofJson?_comparison]
        rfl
  | holds e =>
    rw [toJson, Json.reread_ofTagged_singleton, reread, ← e.bind_ofJson?_reread]
    cases e.toJson.reread with
    | none => rfl
    | some value =>
      show ofJson? (ofTagged Tag.holds.name [("expression", value)]) = _
      rw [ofJson?_ofTagged .holds (by simp [Json.tagName]), ofBody?]
      rfl

/-- A condition that was written is read as it was but for its numbers, if there is room for it. -/
theorem yields_read (c : Condition) (room : Nat) :
    Yields (read room c.toJson.tree) (c.toJson.nesting ≤ room) c.reread := by
  have htagged : ∀ (tag : Tag) (fields : List (String × Json)),
      Json.tagName ∉ fields.map (·.1) →
      Yields (read room (ofTagged tag.name fields).tree)
        ((ofTagged tag.name fields).nesting ≤ room)
        ((ofTagged tag.name fields).reread.bind ofJson?) := by
    intro tag fields hfields
    have hread := (Json.yields_readTagged (find?_name tag) hfields room).bind
      fun tagged => Yields.required (ofBody? tagged.1 tagged.2)
    rw [← Json.bind_tagged?_reread (ofJson?_name tag) hfields, Option.bind_assoc] at hread
    exact hread.congr (and_iff_left trivial)
  rw [← bind_ofJson?_reread]
  cases c with
  | join k left right => exact htagged (.join k) _ (by simp [Json.tagName])
  | compare left k right => exact htagged .compare _ (by simp [Json.tagName])
  | holds e => exact htagged .holds _ (by simp [Json.tagName])

end Condition

end TradingRules
