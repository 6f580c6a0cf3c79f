/-
# What a strategy mentions

A strategy that is read from a text mentions, when it is written again, no more than the value of the
text does, apart from the tags, symbols and names of members that every strategy is written with. So
a word that is part of none of these is in the value if it is in what is written.
-/
import Mathlib.Data.List.Forall2
import TradingRules.Proofs.Json.Mention
import TradingRules.Proofs.Json.Sorted
import TradingRules.Proofs.Strategy.Shape
import TradingRules.Sandbox.Structure

namespace TradingRules

open Json (FieldAt Mentions ofTagged)

/-! ## Fields of sorted values -/

namespace Json

/-- The last member of a name, looked for from behind. -/
theorem lookup_reverse (name : String) (members : List (String × Json)) :
    members.reverse.lookup name = (membersNamed name members).getLast? := by
  induction members with
  | nil => rfl
  | cons member rest ih =>
    obtain ⟨name', v⟩ := member
    rw [List.reverse_cons, List.lookup_append, ih, membersNamed_cons, List.lookup_cons,
      List.lookup_nil]
    by_cases h : name' = name
    · rw [if_pos h, beq_iff_eq.mpr h.symm, List.getLast?_cons]
      cases (membersNamed name rest).getLast? <;> rfl
    · rw [if_neg h, beq_eq_false_iff_ne.mpr (Ne.symm h)]
      exact Option.or_none

/-- A field is a member of the sorted value, if that is an object. -/
theorem FieldAt.member?_sorted {name : String} {place : Nat} {j v : Json} (h : FieldAt name place j v) :
    (∃ items, j.sorted = .array items) ∨ j.sorted.member? name = some v.sorted := by
  cases h with
  | @member members _ h =>
    right
    unfold onlyMember? at h
    split at h
    · rename_i hnamed
      cases h
      rw [Json.member?_sorted, lookup_reverse, hnamed]
      rfl
    · cases h
  | @item items _ h => exact Or.inl ⟨sortedItems items, rfl⟩

/-- What a field mentions, the value mentions. -/
theorem FieldAt.mentions {name : String} {place : Nat} {j v : Json} {word : List Char}
    (h : FieldAt name place j v) (hword : Mentions word v.sorted) : Mentions word j.sorted := by
  rcases h.member?_sorted with ⟨items', hitems'⟩ | hmember
  · cases h with
    | member => cases hitems'
    | @item items _ h =>
      rw [sorted, sortedItems_eq_map, mentions_array]
      exact ⟨v.sorted, List.mem_map_of_mem (List.mem_of_getElem? h), hword⟩
  · cases hj : j.sorted with
    | object members =>
      rw [hj, member?] at hmember
      rw [mentions_object]
      exact ⟨_, Sandbox.mem_of_lookup_eq_some hmember, Or.inr hword⟩
    | _ =>
      rw [hj] at hmember
      cases hmember

mutual

/-- Sorting adds no text. -/
theorem mentions_of_sorted {word : List Char} (j : Json) (h : Mentions word j.sorted) :
    Mentions word j := by
  match j with
  | .null => exact h
  | .bool _ => exact h
  | .number _ => exact h
  | .string _ => exact h
  | .array items =>
    rw [sorted, mentions_array] at h
    rw [mentions_array]
    exact mentions_of_sortedItems items h
  | .object members =>
    rw [sorted, mentions_object] at h
    rw [mentions_object]
    rcases mentions_of_sortedMembers [] members h with hmember | ⟨_, hmem, -⟩
    · exact hmember
    · cases hmem
termination_by structural j

theorem mentions_of_sortedItems {word : List Char} (items : List Json)
    (h : ∃ item ∈ sortedItems items, Mentions word item) : ∃ item ∈ items, Mentions word item := by
  match items with
  | [] => exact h
  | item :: rest =>
    rw [sortedItems, List.exists_mem_cons_iff] at h
    rw [List.exists_mem_cons_iff]
    rcases h with hitem | hrest
    · exact Or.inl (mentions_of_sorted item hitem)
    · exact Or.inr (mentions_of_sortedItems rest hrest)
termination_by structural items

theorem mentions_of_sortedMembers {word : List Char} (done members : List (String × Json))
    (h : ∃ member ∈ sortedMembers done members,
      word <:+: escaped member.1 ∨ Mentions word member.2) :
    (∃ member ∈ members, word <:+: escaped member.1 ∨ Mentions word member.2) ∨
      ∃ member ∈ done, word <:+: escaped member.1 ∨ Mentions word member.2 := by
  match members with
  | [] => exact Or.inr h
  | (name, v) :: rest =>
    rw [List.exists_mem_cons_iff]
    rcases mentions_of_sortedMembers _ rest h with hrest | ⟨member, hmem, hword⟩
    · exact Or.inl (Or.inr hrest)
    · rcases Dictionary.mem_putEntry hmem with rfl | hdone
      · refine Or.inl (Or.inl ?_)
        rcases hword with hname | hvalue
        · exact Or.inl hname
        · exact Or.inr (mentions_of_sorted v hvalue)
      · exact Or.inr ⟨member, hdone, hword⟩
termination_by structural members

end

/-- A tagged value mentions what its tag, the names of its fields and the fields mention. -/
theorem mentions_ofTagged {word : List Char} {tag : String} {fields : List (String × Json)} :
    Mentions word (ofTagged tag fields) ↔
      (word <:+: escaped tagName ∨ word <:+: escaped tag) ∨
        ∃ field ∈ fields, word <:+: escaped field.1 ∨ Mentions word field.2 := by
  rw [ofTagged, mentions_object, List.exists_mem_cons_iff, mentions_string]

/-- A number that is written, or the null for one that cannot be, mentions nothing. -/
theorem not_mentions_ofFloat {word : List Char} (x : Float) : ¬ Mentions word (ofFloat x) := by
  rintro ⟨_, htext, -⟩
  unfold ofFloat at htext
  split at htext <;> cases htext

end Json

/-! ## What a strategy mentions -/

/-- The texts that are written for every strategy: tags, symbols and the names of members. -/
def fixedTexts : List String :=
  Condition.tags.map Condition.Tag.name ++ Expression.tags.map Expression.Tag.name ++
    Action.kinds.map Action.Kind.word ++ Comparison.all.map Comparison.symbol ++
    [Json.tagName, "left", "right", "operator", "expression", "value", "period", "parameters",
      "condition", "actions", "name", "rules"]

/-- A word that is part of no fixed text. -/
def IsOwnWord (word : List Char) : Prop :=
  ∀ t ∈ fixedTexts, ¬ word <:+: Json.escaped t

/-- The names of all kinds of expressions are fixed texts. -/
theorem Expression.name_mem_fixedTexts (tag : Tag) : tag.name ∈ fixedTexts := by
  cases tag with
  | indicator kind => cases kind <;> decide
  | _ => decide

/-- The names of all kinds of conditions are fixed texts. -/
theorem Condition.name_mem_fixedTexts (tag : Tag) : tag.name ∈ fixedTexts := by
  cases tag with
  | join k => cases k <;> decide
  | _ => decide

theorem Comparison.symbol_mem_fixedTexts (k : Comparison) : k.symbol ∈ fixedTexts := by
  cases k <;> decide

theorem Action.word_mem_fixedTexts (kind : Kind) : kind.word ∈ fixedTexts := by
  cases kind <;> decide

section

variable {word : List Char} (hown : IsOwnWord word)
include hown

/-- An own word stands in a field of a tagged value that was written. -/
theorem IsOwnWord.mentions_field {tag : String} (htag : tag ∈ fixedTexts)
    {fields : List (String × Json)} (hnames : ∀ field ∈ fields, field.1 ∈ fixedTexts)
    (h : Mentions word (ofTagged tag fields)) : ∃ field ∈ fields, Mentions word field.2 := by
  rcases Json.mentions_ofTagged.mp h with (htype | hname) | ⟨field, hmem, hname | hvalue⟩
  · exact absurd htype (hown _ (by decide))
  · exact absurd hname (hown _ htag)
  · exact absurd hname (hown _ (hnames field hmem))
  · exact ⟨field, hmem, hvalue⟩

/-- What is mentioned by an expression that is written is mentioned where it was read. -/
theorem Expression.mentions_of_ofJson? {j : Json} {e : Expression} (h : ofJson? j = some e)
    (hword : Mentions word e.toJson) : Mentions word j.sorted := by
  have hnames : ∀ field ∈ e.fields, field.1 ∈ fixedTexts := by
    cases e <;> simp [fields, fixedTexts]
  obtain ⟨field, hmem, hvalue⟩ := hown.mentions_field (name_mem_fixedTexts e.tag) hnames hword
  cases e with
  | tweetContains text =>
    obtain rfl := List.mem_singleton.mp hmem
    exact (fieldAt_of_tweetContains h).mentions hvalue
  | volume => cases hmem
  | price => cases hmem
  | indicator i =>
    obtain rfl := List.mem_singleton.mp hmem
    obtain ⟨_, htext, -⟩ := hvalue
    cases htext
  | literal x =>
    obtain rfl := List.mem_singleton.mp hmem
    exact absurd hvalue (Json.not_mentions_ofFloat x)

/-- The same of a condition. -/
theorem Condition.mentions_of_ofJson? {j : Json} {c : Condition} (h : ofJson? j = some c)
    (hword : Mentions word c.toJson) : Mentions word j.sorted := by
  induction c generalizing j with
  | join k left right ihl ihr =>
    obtain ⟨l, r, hl, hleft, hr, hright⟩ := fieldAt_of_join h
    obtain ⟨field, hmem, hvalue⟩ :=
      hown.mentions_field (name_mem_fixedTexts _) (by simp [fixedTexts]) hword
    simp only [List.mem_cons, List.not_mem_nil, or_false] at hmem
    rcases hmem with rfl | rfl
    · exact hl.mentions (ihl hleft hvalue)
    · exact hr.mentions (ihr hright hvalue)
  | compare left k right =>
    obtain ⟨l, r, hl, hleft, hr, hright⟩ := fieldAt_of_compare h
    obtain ⟨field, hmem, hvalue⟩ :=
      hown.mentions_field (name_mem_fixedTexts _) (by simp [fixedTexts]) hword
    simp only [List.mem_cons, List.not_mem_nil, or_false] at hmem
    rcases hmem with rfl | rfl | rfl
    · exact hl.mentions (Expression.mentions_of_ofJson? hown hleft hvalue)
    · exact absurd (Json.mentions_string.mp hvalue) (hown _ k.symbol_mem_fixedTexts)
    · exact hr.mentions (Expression.mentions_of_ofJson? hown hright hvalue)
  | holds e =>
    obtain ⟨v, hv, he⟩ := fieldAt_of_holds h
    obtain ⟨field, hmem, hvalue⟩ :=
      hown.mentions_field (name_mem_fixedTexts _) (by simp [fixedTexts]) hword
    obtain rfl := List.mem_singleton.mp hmem
    exact hv.mentions (Expression.mentions_of_ofJson? hown he hvalue)

end

/-! ## Parameters -/

/-- In the place of an item of the second of two related lists, the first one has a related item. -/
theorem exists_getElem?_of_forall₂ {α β : Type} {related : α → β → Prop} {xs : List α} {ys : List β}
    (h : List.Forall₂ related xs ys) {place : Nat} {y : β} (hy : ys[place]? = some y) :
    ∃ x, xs[place]? = some x ∧ related x y := by
  induction h generalizing place with
  | nil => cases hy
  | @cons x y' xs ys hxy hrest ih =>
    cases place with
    | zero =>
      cases hy
      exact ⟨x, rfl, hxy⟩
    | succ place => exact ih hy

/-- An item of the second of two related lists is related to one of the first. -/
theorem exists_of_mem_right {α β : Type} {related : α → β → Prop} {xs : List α} {ys : List β}
    (h : List.Forall₂ related xs ys) {y : β} (hy : y ∈ ys) : ∃ x ∈ xs, related x y := by
  obtain ⟨place, hplace⟩ := List.getElem?_of_mem hy
  obtain ⟨x, hx, hrelated⟩ := exists_getElem?_of_forall₂ h hplace
  exact ⟨x, List.mem_of_getElem? hx, hrelated⟩

/-- Putting related values under one key keeps entries related. -/
theorem Dictionary.forall₂_putEntry {α β : Type} (related : α → β → Prop)
    {xs : List (String × α)} {ys : List (String × β)}
    (h : List.Forall₂ (fun x y => x.1 = y.1 ∧ related x.2 y.2) xs ys) (key : String) {a : α} {b : β}
    (hab : related a b) :
    List.Forall₂ (fun x y => x.1 = y.1 ∧ related x.2 y.2) (putEntry key a xs) (putEntry key b ys) := by
  induction h with
  | nil => exact .cons ⟨rfl, hab⟩ .nil
  | @cons x y xs ys hxy hrest ih =>
    obtain ⟨name, v⟩ := x
    obtain ⟨name', w⟩ := y
    obtain ⟨rfl, hvw⟩ := hxy
    rw [putEntry, putEntry]
    split
    · exact .cons ⟨rfl, hab⟩ (.cons ⟨rfl, hvw⟩ hrest)
    · split
      · exact .cons ⟨rfl, hab⟩ hrest
      · exact .cons ⟨rfl, hvw⟩ ih

/-- A parameter is that of the sorted value. -/
theorem Parameter.ofJson?_sorted (j : Json) : ofJson? j.sorted = ofJson? j := by
  cases j <;> rfl

/-- The entries of parameters are those of the sorted object: in both, the last of several values of
one name counts. -/
theorem Parameters.forall₂_sortedMembers {members done : List (String × Json)}
    {entries : List (String × Parameter)} {d : Parameters}
    (h : members.mapM (fun (name, value) => (Parameter.ofJson? value).map (name, ·)) = some entries)
    (hdone : List.Forall₂ (fun x y => x.1 = y.1 ∧ Parameter.ofJson? x.2 = some y.2) done d.entries) :
    List.Forall₂ (fun x y => x.1 = y.1 ∧ Parameter.ofJson? x.2 = some y.2)
      (Json.sortedMembers done members)
      (entries.foldl (fun d e => d.insert e.1 e.2) d).entries := by
  induction members generalizing done entries d with
  | nil =>
    cases h
    exact hdone
  | cons member rest ih =>
    obtain ⟨name, v⟩ := member
    rw [List.mapM_cons] at h
    obtain ⟨_, hfirst, h⟩ := Option.bind_eq_some_iff.mp h
    obtain ⟨p, hp, rfl⟩ := Option.map_eq_some_iff.mp hfirst
    obtain ⟨entries, hrest, heq⟩ := Option.bind_eq_some_iff.mp h
    cases heq
    have hsorted : Parameter.ofJson? v.sorted = some p := by rw [Parameter.ofJson?_sorted, hp]
    have hput := Dictionary.forall₂_putEntry (fun v p => Parameter.ofJson? v = some p) hdone name
      hsorted
    show List.Forall₂ _ (Json.sortedMembers _ rest)
      (entries.foldl (fun d e => d.insert e.1 e.2) (d.insert name p)).entries
    exact ih hrest hput

/-- What parameters that are written mention is mentioned where they were read. -/
theorem Parameters.mentions_of_ofJson? {word : List Char} {j : Json} {parameters : Parameters}
    (h : ofJson? j = some parameters) (hword : Mentions word (toJson parameters)) :
    Mentions word j.sorted := by
  unfold ofJson? at h
  split at h
  · rename_i members
    obtain ⟨entries, hentries, heq⟩ := Option.bind_eq_some_iff.mp h
    cases heq
    have hall : List.Forall₂ (fun x y => x.1 = y.1 ∧ Parameter.ofJson? x.2 = some y.2)
        (Json.sortedMembers [] members) (Dictionary.ofList entries).entries :=
      forall₂_sortedMembers hentries .nil
    rw [toJson, Json.mentions_object] at hword
    obtain ⟨_, hmem, hword⟩ := hword
    obtain ⟨⟨name, p⟩, hentry, rfl⟩ := List.mem_map.mp hmem
    obtain ⟨⟨_, v⟩, hmember, rfl, hv⟩ := exists_of_mem_right hall hentry
    rw [Json.sorted, Json.mentions_object]
    refine ⟨_, hmember, ?_⟩
    rcases hword with hname | hvalue
    · exact Or.inl hname
    · cases p with
      | number x => exact absurd hvalue (Json.not_mentions_ofFloat x)
      | text s =>
        have hstring : v = .string s := by
          cases v with
          | string s' =>
            cases hv
            rfl
          | _ => cases hv
        rw [hstring]
        exact Or.inr hvalue
  · cases h

/-! ## Actions, rules, strategies -/

/-- What is mentioned by a list that is written is mentioned in the field from which it was read,
item by item. -/
theorem mentions_of_forall₂ {α : Type} {word : List Char} {write : α → Json} {isRead : Json → α → Prop}
    (hitem : ∀ item a, isRead item a → Mentions word (write a) → Mentions word item.sorted)
    {items : List Json} {as : List α} (h : List.Forall₂ isRead items as)
    (hword : Mentions word (.array (as.map write))) : Mentions word (Json.array items).sorted := by
  obtain ⟨_, hmem, hvalue⟩ := Json.mentions_array.mp hword
  obtain ⟨a, ha, rfl⟩ := List.mem_map.mp hmem
  obtain ⟨item, hitem', hread⟩ := exists_of_mem_right h ha
  rw [Json.sorted, Json.sortedItems_eq_map, Json.mentions_array]
  exact ⟨item.sorted, List.mem_map_of_mem hitem', hitem item a hread hvalue⟩

section

variable {word : List Char} (hown : IsOwnWord word)
include hown

/-- What is mentioned by an action that is written is mentioned where it was read. -/
theorem Action.mentions_of_ofJson? {j : Json} {a : Action} (h : ofJson? j = some a)
    (hword : Mentions word a.toJson) : Mentions word j.sorted := by
  obtain ⟨v, hv, hparameters⟩ := fieldAt_of_ofJson? h
  obtain ⟨field, hmem, hvalue⟩ :=
    hown.mentions_field (word_mem_fixedTexts _) (by simp [fixedTexts]) hword
  obtain rfl := List.mem_singleton.mp hmem
  exact hv.mentions (Parameters.mentions_of_ofJson? hparameters hvalue)

/-- An own word is mentioned by a member of an object that was written. -/
theorem IsOwnWord.mentions_member {members : List (String × Json)}
    (hnames : ∀ member ∈ members, member.1 ∈ fixedTexts) (h : Mentions word (.object members)) :
    ∃ member ∈ members, Mentions word member.2 := by
  obtain ⟨member, hmem, hname | hvalue⟩ := Json.mentions_object.mp h
  · exact absurd hname (hown _ (hnames member hmem))
  · exact ⟨member, hmem, hvalue⟩

/-- What is mentioned by a rule that is written is mentioned where it was read. -/
theorem Rule.IsReadFrom.mentions {j : Json} {r : Rule} (h : r.IsReadFrom j)
    (hword : Mentions word r.toJson) : Mentions word j.sorted := by
  obtain ⟨v, hv, hcondition⟩ := h.condition
  obtain ⟨items, hitems, hactions⟩ := h.actions
  obtain ⟨member, hmem, hvalue⟩ := hown.mentions_member (by simp [fixedTexts]) hword
  simp only [List.mem_cons, List.not_mem_nil, or_false] at hmem
  rcases hmem with rfl | rfl
  · exact hv.mentions (Condition.mentions_of_ofJson? hown hcondition hvalue)
  · refine hitems.mentions (mentions_of_forall₂ (fun item a => ?_) hactions hvalue)
    exact Action.mentions_of_ofJson? hown

/-- What is mentioned by a strategy that is written is mentioned where it was read. -/
theorem Strategy.IsReadFrom.mentions {j : Json} {s : Strategy} (h : s.IsReadFrom j)
    (hword : Mentions word s.toJson) : Mentions word j.sorted := by
  obtain ⟨items, hitems, hrules⟩ := h.rules
  obtain ⟨member, hmem, hvalue⟩ := hown.mentions_member (by simp [fixedTexts]) hword
  simp only [List.mem_cons, List.not_mem_nil, or_false] at hmem
  rcases hmem with rfl | rfl
  · exact h.name.mentions hvalue
  · refine hitems.mentions (mentions_of_forall₂ (fun item r hread => ?_) hrules hvalue)
    exact hread.mentions hown

end

end TradingRules
