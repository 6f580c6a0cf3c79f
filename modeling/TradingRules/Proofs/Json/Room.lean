/-
# Reading within the room that is left

Every reader opens a list or an object only while there is room for it, so what it gives nests no
deeper than the room that it had. For a reader of a certain shape this is said of what is written of
its result, the canonical value: whatever the spelling was, it is no shallower. The property goes from
the parts to the whole: to lists, to records and to tagged values.
-/
import TradingRules.Proofs.Json.Reading
import TradingRules.Proofs.Json.Shape

namespace TradingRules.Json

/-! ## The reader of any value -/

/-- Opening a list or an object uses up room for one. -/
theorem openNested_eq_ok {room inner : Nat} (h : openNested room = .ok inner) :
    room = inner + 1 := by
  cases room with
  | zero => cases h
  | succ room =>
    cases h
    rfl

mutual

/-- A value that is read nests no deeper than there is room. -/
theorem nesting_le_of_read {t : Tree} {room : Nat} {j : Json} (h : t.read room = .ok j) :
    j.nesting ≤ room := by
  match t with
  | .null =>
    cases h
    exact Nat.zero_le room
  | .bool _ =>
    cases h
    exact Nat.zero_le room
  | .number n =>
    obtain ⟨_, -, h⟩ := bind_eq_ok_iff.mp h
    cases h
    exact Nat.zero_le room
  | .string text =>
    obtain ⟨_, -, h⟩ := bind_eq_ok_iff.mp h
    cases h
    exact Nat.zero_le room
  | .array items ending =>
    obtain ⟨inner, js, hinner, hjs, rfl⟩ := read_array_eq_ok h
    have hroom : room = inner + 1 := openNested_eq_ok hinner
    have hitems : nestingItems js ≤ inner := nestingItems_le_of_readItems hjs
    show nestingItems js + 1 ≤ room
    omega
  | .object members ending =>
    obtain ⟨inner, js, hinner, hjs, rfl⟩ := read_object_eq_ok h
    have hroom : room = inner + 1 := openNested_eq_ok hinner
    have hmembers : nestingMembers js ≤ inner := nestingMembers_le_of_readMembers hjs
    show nestingMembers js + 1 ≤ room
    omega
  | .broken _ => cases h
termination_by structural t

/-- Items that are read nest no deeper than there is room. -/
theorem nestingItems_le_of_readItems {items : List Tree} {room : Nat} {js : List Json}
    (h : readItems room items = .ok js) : nestingItems js ≤ room := by
  match items with
  | [] =>
    cases h
    exact Nat.zero_le room
  | item :: items =>
    obtain ⟨j, rest, hj, hrest, rfl⟩ := readItems_cons_eq_ok h
    have hfirst : j.nesting ≤ room := nesting_le_of_read hj
    have hothers : nestingItems rest ≤ room := nestingItems_le_of_readItems hrest
    exact Nat.max_le.mpr ⟨hfirst, hothers⟩
termination_by structural items

/-- Members that are read nest no deeper than there is room. -/
theorem nestingMembers_le_of_readMembers {members : List (Option String × Tree)} {room : Nat}
    {js : List (String × Json)} (h : readMembers room members = .ok js) :
    nestingMembers js ≤ room := by
  match members with
  | [] =>
    cases h
    exact Nat.zero_le room
  | (name?, value) :: members =>
    obtain ⟨name, j, rest, -, hj, hrest, rfl⟩ := readMembers_cons_eq_ok h
    have hfirst : j.nesting ≤ room := nesting_le_of_read hj
    have hothers : nestingMembers rest ≤ room := nestingMembers_le_of_readMembers hrest
    exact Nat.max_le.mpr ⟨hfirst, hothers⟩
termination_by structural members

end

/-! ## Fields -/

/-- A field nests less deep than the value of which it is a field. -/
theorem FieldAt.nesting_lt {name : String} {place : Nat} {j v : Json} (h : FieldAt name place j v) :
    v.nesting < j.nesting := by
  cases h with
  | @member members _ honly =>
    have hmem : v ∈ membersNamed name members := by
      unfold onlyMember? at honly
      split at honly
      · rename_i hvalues
        cases honly
        rw [hvalues]
        exact List.mem_singleton_self v
      · cases honly
    simp only [membersNamed, List.mem_map, List.mem_filter] at hmem
    obtain ⟨member, ⟨hmember, -⟩, rfl⟩ := hmem
    exact Nat.lt_succ_of_le (nestingMembers_le_iff.mp (Nat.le_refl _) member hmember)
  | @item items _ hitem =>
    have hmem : v ∈ items := List.mem_of_getElem? hitem
    exact Nat.lt_succ_of_le (nestingItems_le_iff.mp (Nat.le_refl _) v hmem)

/-- A tagged value is a list or an object. -/
theorem one_le_nesting_of_tagged? {τ : Type} {tag? : Json → Option τ} {j : Json} {tag : τ}
    {body : Body} (h : j.tagged? tag? = some (tag, body)) : 1 ≤ j.nesting := by
  unfold tagged? at h
  split at h
  · exact Nat.le_add_left 1 _
  · exact Nat.le_add_left 1 _
  · cases h

/-! ## Readers of a certain shape -/

/-- What a reader gives nests, when it is written again, no deeper than the room that the reader
had. -/
def KeepsRoom {α : Type} (read : Nat → Tree → Reading α) (write : α → Json) : Prop :=
  ∀ ⦃room t a⦄, read room t = .ok a → (write a).nesting ≤ room

/-! ### Tagged values -/

section

variable {τ : Type} {known : String → Option τ} {room : Nat}

/-- A tag that is read is a text, so it is read as a value of any shape. -/
theorem exists_read_of_readTag {t : Tree} {tag : τ} (h : t.readTag known = .ok tag) :
    ∃ j, t.read room = .ok j := by
  obtain ⟨s, hs, -⟩ := bind_eq_ok_iff.mp h
  cases t with
  | string text =>
    cases text with
    | none => cases hs
    | some text => exact ⟨.string text, rfl⟩
  | _ => cases hs

/-- The members of a tagged object are read as members of any shape. -/
theorem exists_readMembers_of_readTaggedMembers {members : List (Option String × Tree)}
    {tag : Option τ} {found : Option τ × List (String × Json)}
    (h : readTaggedMembers known room tag members = .ok found) :
    ∃ js, readMembers room members = .ok js := by
  induction members generalizing tag found with
  | nil => exact ⟨[], rfl⟩
  | cons member members ih =>
    obtain ⟨name?, value⟩ := member
    obtain ⟨name, hname, h⟩ := bind_eq_ok_iff.mp h
    -- the tag stands anywhere among the members
    have hparts : (∃ j, value.read room = .ok j) ∧ ∃ js, readMembers room members = .ok js := by
      by_cases htype : name = "type"
      · rw [if_pos htype] at h
        split_ifs at h
        obtain ⟨tag, htag, h⟩ := bind_eq_ok_iff.mp h
        exact ⟨exists_read_of_readTag htag, ih h⟩
      · rw [if_neg htype] at h
        obtain ⟨j, hj, h⟩ := bind_eq_ok_iff.mp h
        obtain ⟨_, hrest, -⟩ := bind_eq_ok_iff.mp h
        exact ⟨⟨j, hj⟩, ih hrest⟩
    obtain ⟨⟨j, hj⟩, js, hjs⟩ := hparts
    refine ⟨(name, j) :: js, ?_⟩
    rw [readMembers, hname]
    simp only [bind, Except.bind, hj, hjs]
    rfl

/-- A tagged value is read as a value of any shape. -/
theorem exists_read_of_readTagged {t : Tree} {found : τ × Body}
    (h : t.readTagged known room = .ok found) : ∃ j, t.read room = .ok j := by
  cases t with
  | object members ending =>
    obtain ⟨inner, hinner, h⟩ := bind_eq_ok_iff.mp h
    obtain ⟨_, hmembers, h⟩ := bind_eq_ok_iff.mp h
    obtain ⟨_, hending, -⟩ := bind_eq_ok_iff.mp h
    obtain ⟨js, hjs⟩ := exists_readMembers_of_readTaggedMembers hmembers
    refine ⟨.object js, ?_⟩
    rw [Tree.read, hinner]
    simp only [bind, Except.bind, hjs, hending]
    rfl
  | array items ending =>
    cases items with
    | nil =>
      obtain ⟨_, -, h⟩ := bind_eq_ok_iff.mp h
      obtain ⟨_, -, h⟩ := bind_eq_ok_iff.mp h
      cases h
    | cons first items =>
      obtain ⟨inner, hinner, h⟩ := bind_eq_ok_iff.mp h
      obtain ⟨tag, htag, h⟩ := bind_eq_ok_iff.mp h
      obtain ⟨js, hjs, h⟩ := bind_eq_ok_iff.mp h
      obtain ⟨_, hending, -⟩ := bind_eq_ok_iff.mp h
      obtain ⟨j, hj⟩ : ∃ j, first.read inner = .ok j := exists_read_of_readTag htag
      refine ⟨.array (j :: js), ?_⟩
      rw [Tree.read, hinner]
      simp only [bind, Except.bind, readItems, hj, hjs, hending]
      rfl
  | _ => cases h

/-- A reader of tagged values keeps the room if what is made of a value nests no deeper than the
value. -/
theorem KeepsRoom.tagged {α : Type} {tag? : Json → Option τ} {ofBody? : τ → Body → Option α}
    {write : α → Json} (htag : ∀ s, tag? (.string s) = known s)
    (hwrite : ∀ (j : Json) tag body a, j.tagged? tag? = some (tag, body) → ofBody? tag body = some a →
      (write a).nesting ≤ j.nesting) :
    KeepsRoom (fun room t => do
      let (tag, body) ← t.readTagged known room
      required (ofBody? tag body)) write := by
  intro room t a h
  obtain ⟨⟨tag, body⟩, htagged, h⟩ := bind_eq_ok_iff.mp h
  obtain ⟨j, hj⟩ := exists_read_of_readTagged htagged
  have hsplit : j.tagged? tag? = some (tag, body) := BothRead.tagged htag ⟨room, t, hj, htagged⟩
  calc (write a).nesting
      ≤ j.nesting := hwrite j tag body a hsplit (eq_some_of_required h)
    _ ≤ room := nesting_le_of_read hj

end

/-! ### Lists -/

section

variable {α : Type} {read : Nat → Tree → Reading α} {write : α → Json}

/-- Items that are read one after the other nest no deeper than there is room. -/
theorem KeepsRoom.nestingItems_le (h : KeepsRoom read write) {room : Nat} {items : List Tree}
    {as : List α} (has : readEach (read room) items = .ok as) :
    nestingItems (as.map write) ≤ room := by
  induction items generalizing as with
  | nil =>
    cases has
    exact Nat.zero_le room
  | cons item items ih =>
    obtain ⟨a, ha, has⟩ := bind_eq_ok_iff.mp has
    obtain ⟨rest, hrest, has⟩ := bind_eq_ok_iff.mp has
    cases has
    exact Nat.max_le.mpr ⟨h ha, ih hrest⟩

/-- A reader of lists keeps the room if the reader of their items does. -/
theorem KeepsRoom.list (h : KeepsRoom read write) :
    KeepsRoom (fun room t => t.readList room read) fun as => .array (as.map write) := by
  intro room t as has
  cases t with
  | array items ending =>
    obtain ⟨inner, hinner, has⟩ := bind_eq_ok_iff.mp has
    obtain ⟨as', hitems, has⟩ := bind_eq_ok_iff.mp has
    obtain ⟨_, -, has⟩ := bind_eq_ok_iff.mp has
    cases has
    have hroom : room = inner + 1 := openNested_eq_ok hinner
    have hnesting : nestingItems (as.map write) ≤ inner := h.nestingItems_le hitems
    show nestingItems (as.map write) + 1 ≤ room
    omega
  | _ => cases has

end

/-! ### Records -/

section

variable {σ : Type} {shape : RecordShape σ} {P : σ → Prop} {room : Nat}

/-- What every field that is stored keeps is kept by the members of an object. -/
theorem RecordShape.members_induction
    (hstore : ∀ place record record' t, P record →
      shape.store room place record t = .ok record' → P record')
    {seen : List String} {record record' : σ} {members : List (Option String × Tree)}
    (hstart : P record) (h : shape.members room seen record members = .ok record') : P record' := by
  induction members generalizing seen record with
  | nil =>
    cases h
    exact hstart
  | cons member members ih =>
    obtain ⟨name?, value⟩ := member
    obtain ⟨name, -, h⟩ := bind_eq_ok_iff.mp h
    split at h
    · obtain ⟨_, -, h⟩ := bind_eq_ok_iff.mp h
      exact ih hstart h
    · rename_i place _
      split_ifs at h
      obtain ⟨stored, hstored, h⟩ := bind_eq_ok_iff.mp h
      exact ih (hstore place record stored value hstart hstored) h

/-- What every field that is stored keeps is kept by the items of a list. -/
theorem RecordShape.items_induction
    (hstore : ∀ place record record' t, P record →
      shape.store room place record t = .ok record' → P record')
    {place : Nat} {record record' : σ} {items left : List Tree}
    (hstart : P record) (h : shape.items room place record items = .ok (record', left)) :
    P record' := by
  induction items generalizing place record with
  | nil =>
    cases h
    exact hstart
  | cons item items ih =>
    rw [RecordShape.items] at h
    split_ifs at h
    · obtain ⟨stored, hstored, h⟩ := bind_eq_ok_iff.mp h
      exact ih (hstore place record stored item hstart hstored) h
    · cases h
      exact hstart

end

/-- A reader of records keeps the room if it stores only fields that do, and completes the record with
one more list or object around them. -/
theorem KeepsRoom.record {σ α : Type} {shape : RecordShape σ} {P : Nat → σ → Prop} {start : σ}
    {complete : σ → Reading α} {write : α → Json} (hstart : ∀ room, P room start)
    (hstore : ∀ room place record record' t, P room record →
      shape.store room place record t = .ok record' → P room record')
    (hcomplete : ∀ room record a, P room record → complete record = .ok a →
      (write a).nesting ≤ room + 1) :
    KeepsRoom (fun room t => shape.read start complete room t) write := by
  intro room t a h
  cases t with
  | object members ending =>
    obtain ⟨inner, hinner, h⟩ := bind_eq_ok_iff.mp h
    obtain ⟨record, hrecord, h⟩ := bind_eq_ok_iff.mp h
    obtain ⟨_, -, h⟩ := bind_eq_ok_iff.mp h
    have hfields : P inner record :=
      shape.members_induction (hstore inner) (hstart inner) hrecord
    rw [openNested_eq_ok hinner]
    exact hcomplete inner record a hfields h
  | array items ending =>
    obtain ⟨inner, hinner, h⟩ := bind_eq_ok_iff.mp h
    obtain ⟨⟨record, left⟩, hrecord, h⟩ := bind_eq_ok_iff.mp h
    have hfields : P inner record := shape.items_induction (hstore inner) (hstart inner) hrecord
    have hdone : complete record = .ok a := by
      simp only at h
      split at h
      · obtain ⟨_, -, h⟩ := bind_eq_ok_iff.mp h
        exact h
      · cases h
    rw [openNested_eq_ok hinner]
    exact hcomplete inner record a hfields hdone
  | _ => cases h

end TradingRules.Json
