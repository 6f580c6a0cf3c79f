/-
# Tagged values

A value of a type with several alternatives is written as an object with a member `type`, the tag,
and one member for each field of the alternative. It is also read from a list of the tag and the
fields, and a tag is also read from the place of its alternative. Members that are no fields are
ignored; each field must come exactly once.
-/
import TradingRules.Json.Read

namespace TradingRules.Json

/-! ## Writing -/

/-- The name of the member that holds the tag. -/
def tagName : String := "type"

/-- The object of a tag and fields. -/
def ofTagged (tag : String) (fields : List (String × Json)) : Json :=
  .object ((tagName, .string tag) :: fields)

/-! ## Reading fields -/

/-- The text that a value is. -/
def text? : Json → Option String
  | .string s => some s
  | _ => none

/-- The number of double precision that a value is nearest to. -/
def float? : Json → Option Float
  | .number n => some n.toFloat
  | _ => none

/-- The unsigned number of 64 bits that a value is. -/
def word? : Json → Option UInt64
  | .number (.integer (.ofNat n)) => if n < Text.wordBound then some (.ofNat n) else none
  | _ => none

/-- The values of the members of one name. -/
def membersNamed (name : String) (members : List (String × Json)) : List Json :=
  (members.filter (·.1 = name)).map (·.2)

/-- The value of the only member of one name. -/
def onlyMember? (name : String) (members : List (String × Json)) : Option Json :=
  match membersNamed name members with
  | [value] => some value
  | _ => none

/-- The values of the fields with the given names. -/
def Body.fields? (names : List String) : Body → Option (List Json)
  | .members pairs => names.mapM (onlyMember? · pairs)
  | .items values => if values.length = names.length then some values else none

/-! ## Reading a tag -/

/-- The tag among all tags that a value gives by its name or by its place. -/
def tagAmong? {τ : Type} (tags : List τ) (name : τ → String) : Json → Option τ
  | .string s => tags.find? (name · = s)
  | .number (.integer (.ofNat n)) => tags[n]?
  | _ => none

/-- Splits a value into its tag and what stands beside it. -/
def tagged? {τ : Type} (tag? : Json → Option τ) : Json → Option (τ × Body)
  | .object members => do
    let tag ← tag? (← onlyMember? tagName members)
    return (tag, .members (members.filter (·.1 ≠ tagName)))
  | .array (first :: items) => do
    let tag ← tag? first
    return (tag, .items items)
  | _ => none

/-! ### Fields are smaller than what they stand in -/

theorem sizeOf_lt_of_mem_membersNamed {name : String} {members : List (String × Json)}
    {value : Json} (h : value ∈ membersNamed name members) : sizeOf value < sizeOf members := by
  simp only [membersNamed, List.mem_map, List.mem_filter] at h
  obtain ⟨⟨name', value'⟩, ⟨hm, _⟩, rfl⟩ := h
  have := List.sizeOf_lt_of_mem hm
  simp only [Prod.mk.sizeOf_spec] at this ⊢
  omega

theorem sizeOf_onlyMember?_lt {name : String} {members : List (String × Json)} {value : Json}
    (h : onlyMember? name members = some value) : sizeOf value < sizeOf members := by
  unfold onlyMember? at h
  split at h
  · rename_i v hv
    cases h
    exact @sizeOf_lt_of_mem_membersNamed name _ _ (by rw [hv]; exact List.mem_singleton.mpr rfl)
  · cases h

theorem mem_of_mapM_eq_some {α β : Type} {f : α → Option β} {xs : List α} {ys : List β}
    (h : xs.mapM f = some ys) {y : β} (hy : y ∈ ys) : ∃ x ∈ xs, f x = some y := by
  induction xs generalizing ys with
  | nil => simp only [List.mapM_nil, pure, Option.some.injEq] at h; subst h; cases hy
  | cons x xs ih =>
    simp only [List.mapM_cons, bind, Option.bind_eq_some_iff, pure, Option.some.injEq] at h
    obtain ⟨y', hx, ys', hxs, rfl⟩ := h
    rcases List.mem_cons.mp hy with rfl | hy
    · exact ⟨x, List.mem_cons_self, hx⟩
    · obtain ⟨x', hx', hf⟩ := ih hxs hy
      exact ⟨x', List.mem_cons_of_mem _ hx', hf⟩

theorem sizeOf_fields?_lt {names : List String} {body : Body} {values : List Json} {value : Json}
    (h : body.fields? names = some values) (hv : value ∈ values) : sizeOf value < sizeOf body := by
  cases body with
  | members pairs =>
    obtain ⟨name, _, hn⟩ := mem_of_mapM_eq_some h hv
    have := sizeOf_onlyMember?_lt hn
    simp only [Body.members.sizeOf_spec]
    omega
  | items values =>
    simp only [Body.fields?] at h
    split at h
    · cases h
      have := List.sizeOf_lt_of_mem hv
      simp only [Body.items.sizeOf_spec]
      omega
    · cases h

theorem sizeOf_filter_le {α : Type} [SizeOf α] (p : α → Bool) (xs : List α) :
    sizeOf (xs.filter p) ≤ sizeOf xs := by
  induction xs with
  | nil => simp
  | cons x xs ih =>
    simp only [List.filter_cons]
    split <;> simp only [List.cons.sizeOf_spec] <;> omega

theorem sizeOf_tagged?_le {τ : Type} {tag? : Json → Option τ} {j : Json} {tag : τ} {body : Body}
    (h : j.tagged? tag? = some (tag, body)) : sizeOf body ≤ sizeOf j := by
  unfold tagged? at h
  split at h
  · rename_i members
    simp only [bind, Option.bind_eq_some_iff, pure, Option.some.injEq, Prod.mk.injEq] at h
    obtain ⟨_, _, _, _, _, rfl⟩ := h
    have := sizeOf_filter_le (·.1 ≠ tagName) members
    simp only [Body.members.sizeOf_spec, object.sizeOf_spec]
    omega
  · simp only [bind, Option.bind_eq_some_iff, pure, Option.some.injEq, Prod.mk.injEq] at h
    obtain ⟨_, _, _, rfl⟩ := h
    simp only [Body.items.sizeOf_spec, array.sizeOf_spec, List.cons.sizeOf_spec]
    omega
  · cases h

end TradingRules.Json
