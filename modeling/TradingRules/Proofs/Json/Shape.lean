/-
# One text read in two ways

A text may be read as a value of any shape and as something of a certain shape. Both readers follow
one tree, so what the second one gives is found in the value that the first one gives: the tag of a
tagged value with what stands beside it, the items of a list, the fields of a record, be it spelled
as an object or as a list.
-/
import Mathlib.Data.List.Forall2
import TradingRules.Json.Tagged
import TradingRules.Proofs.Except

namespace TradingRules.Json

/-- Of one tree, the reader of any value gives `j` and the reader of a certain shape gives `a`. -/
def BothRead {α : Type} (read : Nat → Tree → Reading α) (j : Json) (a : α) : Prop :=
  ∃ room t, t.read room = .ok j ∧ read room t = .ok a

/-- A required value is there. -/
theorem eq_some_of_required {α : Type} {value : Option α} {a : α} (h : required value = .ok a) :
    value = some a := by
  cases value with
  | none => cases h
  | some a' =>
    cases h
    rfl

/-! ## The reader of any value -/

/-- An array is read by reading its items. -/
theorem read_array_eq_ok {items : List Tree} {ending : Ending} {room : Nat} {j : Json}
    (h : (Tree.array items ending).read room = .ok j) :
    ∃ inner js, openNested room = .ok inner ∧ readItems inner items = .ok js ∧ j = .array js := by
  obtain ⟨inner, hinner, h⟩ := bind_eq_ok_iff.mp h
  obtain ⟨js, hjs, h⟩ := bind_eq_ok_iff.mp h
  obtain ⟨_, -, h⟩ := bind_eq_ok_iff.mp h
  cases h
  exact ⟨inner, js, hinner, hjs, rfl⟩

/-- An object is read by reading its members. -/
theorem read_object_eq_ok {members : List (Option String × Tree)} {ending : Ending} {room : Nat}
    {j : Json} (h : (Tree.object members ending).read room = .ok j) :
    ∃ inner js, openNested room = .ok inner ∧ readMembers inner members = .ok js ∧
      j = .object js := by
  obtain ⟨inner, hinner, h⟩ := bind_eq_ok_iff.mp h
  obtain ⟨js, hjs, h⟩ := bind_eq_ok_iff.mp h
  obtain ⟨_, -, h⟩ := bind_eq_ok_iff.mp h
  cases h
  exact ⟨inner, js, hinner, hjs, rfl⟩

theorem readItems_cons_eq_ok {item : Tree} {items : List Tree} {room : Nat} {js : List Json}
    (h : readItems room (item :: items) = .ok js) :
    ∃ j rest, item.read room = .ok j ∧ readItems room items = .ok rest ∧ js = j :: rest := by
  obtain ⟨j, hj, h⟩ := bind_eq_ok_iff.mp h
  obtain ⟨rest, hrest, h⟩ := bind_eq_ok_iff.mp h
  cases h
  exact ⟨j, rest, hj, hrest, rfl⟩

theorem readMembers_cons_eq_ok {name? : Option String} {value : Tree}
    {members : List (Option String × Tree)} {room : Nat} {js : List (String × Json)}
    (h : readMembers room ((name?, value) :: members) = .ok js) :
    ∃ name j rest, readName name? = .ok name ∧ value.read room = .ok j ∧
      readMembers room members = .ok rest ∧ js = (name, j) :: rest := by
  obtain ⟨name, hname, h⟩ := bind_eq_ok_iff.mp h
  obtain ⟨j, hj, h⟩ := bind_eq_ok_iff.mp h
  obtain ⟨rest, hrest, h⟩ := bind_eq_ok_iff.mp h
  cases h
  exact ⟨name, j, rest, hname, hj, hrest, rfl⟩

/-- The members of one name behind a member of the name, and behind one of another. -/
theorem membersNamed_cons (name name' : String) (v : Json) (members : List (String × Json)) :
    membersNamed name ((name', v) :: members) =
      if name' = name then v :: membersNamed name members else membersNamed name members := by
  unfold membersNamed
  by_cases h : name' = name
  · rw [if_pos h, List.filter_cons_of_pos (by simpa using h), List.map_cons]
  · rw [if_neg h, List.filter_cons_of_neg (by simpa using h)]

/-! ## Texts and tags -/

/-- A text is a string. -/
theorem BothRead.text {j : Json} {s : String} (h : BothRead (fun _ t => t.readText) j s) :
    j = .string s := by
  obtain ⟨room, t, hj, hs⟩ := h
  cases t with
  | string text =>
    cases text with
    | none => cases hs
    | some text =>
      cases hs
      cases hj
      rfl
  | _ => cases hs

section

variable {τ : Type} {known : String → Option τ} {tag? : Json → Option τ} {room : Nat}

/-- A tag that is read is that of its name. -/
theorem BothRead.tag (htag : ∀ s, tag? (.string s) = known s) {j : Json} {tag : τ}
    (h : BothRead (fun _ t => t.readTag known) j tag) : tag? j = some tag := by
  obtain ⟨room, t, hj, htag'⟩ := h
  obtain ⟨s, hs, hknown⟩ := bind_eq_ok_iff.mp htag'
  have hstring : j = .string s := BothRead.text ⟨room, t, hj, hs⟩
  rw [hstring, htag]
  exact eq_some_of_required hknown

/-- Of the members of a tagged object, one gives the tag, and the others are kept. -/
theorem readTaggedMembers_eq_ok (htag : ∀ s, tag? (.string s) = known s)
    {members : List (Option String × Tree)} {js rest : List (String × Json)} {tag tag' : Option τ}
    (hjs : readMembers room members = .ok js)
    (h : readTaggedMembers known room tag members = .ok (tag', rest)) :
    rest = js.filter (·.1 ≠ tagName) ∧
      (∀ found, tag = some found → tag' = some found ∧ membersNamed tagName js = []) ∧
      ∀ found, tag = none → tag' = some found →
        ∃ v, membersNamed tagName js = [v] ∧ tag? v = some found := by
  induction members generalizing js rest tag with
  | nil =>
    cases hjs
    cases h
    exact ⟨rfl, fun found hfound => ⟨hfound, rfl⟩, fun found hnone hsome => by
      rw [hnone] at hsome
      cases hsome⟩
  | cons member members ih =>
    obtain ⟨name?, value⟩ := member
    obtain ⟨name, j, js, hname, hj, hrest, rfl⟩ := readMembers_cons_eq_ok hjs
    have h := eq_ok_of_bind h hname
    by_cases htype : name = tagName
    · have hcond : name = "type" := htype
      rw [if_pos hcond] at h
      cases tag with
      | some found => cases h
      | none =>
        obtain ⟨found, hfound, h⟩ := bind_eq_ok_iff.mp h
        obtain ⟨hkept, hlater, -⟩ := ih hrest h
        obtain ⟨rfl, hnone⟩ := hlater found rfl
        have hone : membersNamed tagName ((name, j) :: js) = [j] := by
          rw [membersNamed_cons, if_pos htype, hnone]
        refine ⟨?_, ?_, ?_⟩
        · rw [hkept, List.filter_cons_of_neg (by simpa using htype)]
        · intro _ habsurd
          cases habsurd
        · intro _ _ heq
          cases heq
          exact ⟨j, hone, BothRead.tag htag ⟨room, value, hj, hfound⟩⟩
    · have hcond : ¬ name = "type" := htype
      rw [if_neg hcond] at h
      have h := eq_ok_of_bind h hj
      obtain ⟨⟨found, kept⟩, htagged, h⟩ := bind_eq_ok_iff.mp h
      cases h
      rw [membersNamed_cons, if_neg htype]
      obtain ⟨hkept, hlater, htag'⟩ := ih hrest htagged
      refine ⟨?_, hlater, htag'⟩
      rw [hkept, List.filter_cons_of_pos (by simpa using htype)]

/-- The tag and the body of a tagged value are those of the value of any shape. -/
theorem BothRead.tagged (htag : ∀ s, tag? (.string s) = known s) {j : Json} {tag : τ} {body : Body}
    (h : BothRead (fun room t => t.readTagged known room) j (tag, body)) :
    j.tagged? tag? = some (tag, body) := by
  obtain ⟨room, t, hj, h⟩ := h
  cases t with
  | object members ending =>
    obtain ⟨inner, js, hinner, hjs, rfl⟩ := read_object_eq_ok hj
    have h := eq_ok_of_bind h hinner
    obtain ⟨⟨tag', rest⟩, hmembers, h⟩ := bind_eq_ok_iff.mp h
    obtain ⟨_, -, h⟩ := bind_eq_ok_iff.mp h
    obtain ⟨found, hfound, h⟩ := bind_eq_ok_iff.mp h
    cases h
    obtain ⟨rfl, -, hone⟩ := readTaggedMembers_eq_ok htag hjs hmembers
    obtain ⟨v, hv, htagv⟩ := hone tag rfl (eq_some_of_required hfound)
    simp [tagged?, onlyMember?, hv, htagv]
  | array items ending =>
    obtain ⟨inner, js, hinner, hjs, rfl⟩ := read_array_eq_ok hj
    cases items with
    | nil =>
      obtain ⟨_, -, h⟩ := bind_eq_ok_iff.mp h
      obtain ⟨_, -, h⟩ := bind_eq_ok_iff.mp h
      cases h
    | cons first items =>
      obtain ⟨j, js, hfirst, hrest, rfl⟩ := readItems_cons_eq_ok hjs
      have h := eq_ok_of_bind h hinner
      obtain ⟨found, hfound, h⟩ := bind_eq_ok_iff.mp h
      have h := eq_ok_of_bind h hrest
      obtain ⟨_, -, h⟩ := bind_eq_ok_iff.mp h
      cases h
      have htagj : tag? j = some tag := BothRead.tag htag ⟨inner, first, hfirst, hfound⟩
      simp [tagged?, htagj]
  | _ => cases h

end

/-! ## Lists -/

section

variable {α : Type} {read : Nat → Tree → Reading α} {room : Nat}

/-- Items are read one after the other, in either way. -/
theorem forall₂_readEach {items : List Tree} {js : List Json} {as : List α}
    (hjs : readItems room items = .ok js) (h : readEach (read room) items = .ok as) :
    List.Forall₂ (BothRead read) js as := by
  induction items generalizing js as with
  | nil =>
    cases hjs
    cases h
    exact .nil
  | cons item items ih =>
    obtain ⟨j, js, hj, hrest, rfl⟩ := readItems_cons_eq_ok hjs
    obtain ⟨a, ha, h⟩ := bind_eq_ok_iff.mp h
    obtain ⟨as, has, h⟩ := bind_eq_ok_iff.mp h
    cases h
    exact .cons ⟨room, item, hj, ha⟩ (ih hrest has)

/-- A list is an array of as many items. -/
theorem BothRead.list {j : Json} {as : List α}
    (h : BothRead (fun room t => t.readList room read) j as) :
    ∃ items, j = .array items ∧ List.Forall₂ (BothRead read) items as := by
  obtain ⟨room, t, hj, h⟩ := h
  cases t with
  | array items ending =>
    obtain ⟨inner, js, hinner, hjs, rfl⟩ := read_array_eq_ok hj
    have h := eq_ok_of_bind h hinner
    obtain ⟨as', has, h⟩ := bind_eq_ok_iff.mp h
    obtain ⟨_, -, h⟩ := bind_eq_ok_iff.mp h
    cases h
    exact ⟨js, rfl, forall₂_readEach hjs has⟩
  | _ => cases h

end

/-! ## Records -/

/-- A value is a field of another one: the only member of the name of the field, or the item in its
place. -/
inductive FieldAt (name : String) (place : Nat) : Json → Json → Prop
  | member {members : List (String × Json)} {v : Json} (h : onlyMember? name members = some v) :
      FieldAt name place (.object members) v
  | item {items : List Json} {v : Json} (h : items[place]? = some v) :
      FieldAt name place (.array items) v

/-- A field of a record: the place and the name under which it is read, and how its value is read and
found in the record. Storing it stores the value; storing another field leaves it as it is. -/
structure RecordShape.Stores {σ β : Type} (shape : RecordShape σ) (name : String) (place : Nat)
    (read : Nat → Tree → Reading β) (get : σ → Option β) : Prop where
  named : shape.names.findIdx? (· = name) = some place
  stores : ∀ {room record record' t}, shape.store room place record t = .ok record' →
    ∃ b, read room t = .ok b ∧ get record' = some b
  keeps : ∀ {room other record record' t}, other < shape.names.length → other ≠ place →
    shape.store room other record t = .ok record' → get record' = get record

section

variable {σ β : Type} {shape : RecordShape σ} {name : String} {place room : Nat}
  {read : Nat → Tree → Reading β} {get : σ → Option β}

/-- Of a record of two fields a field is stored, if each is stored in its place and either leaves the
other one as it is. -/
theorem RecordShape.stores_of_pair {γ : Type} {readOther : Nat → Tree → Reading γ}
    (set : β → σ → σ) (setOther : γ → σ → σ) (hnamed : shape.names.findIdx? (· = name) = some place)
    (htwo : shape.names.length = 2)
    (hown : ∀ room record t, shape.store room place record t = (return set (← read room t) record))
    (hother : ∀ room record t,
      shape.store room (1 - place) record t = (return setOther (← readOther room t) record))
    (hget : ∀ b record, get (set b record) = some b)
    (hkept : ∀ c record, get (setOther c record) = get record) :
    shape.Stores name place read get where
  named := hnamed
  stores {room record record' t} h := by
    rw [hown] at h
    obtain ⟨b, hb, h⟩ := bind_eq_ok_iff.mp h
    cases h
    exact ⟨b, hb, hget b record⟩
  keeps {room other record record' t} hlt hne h := by
    have hplace : place < shape.names.length := (List.findIdx?_eq_some_iff_findIdx_eq.mp hnamed).1
    have hsecond : other = 1 - place := by omega
    rw [hsecond, hother] at h
    obtain ⟨c, -, h⟩ := bind_eq_ok_iff.mp h
    cases h
    exact hkept c record

/-- The name in the place of a field is its name. -/
theorem RecordShape.Stores.eq_name (h : shape.Stores name place read get) {other : String}
    (hother : shape.names.findIdx? (· = other) = some place) : other = name := by
  obtain ⟨_, hname, -⟩ := List.findIdx?_eq_some_iff_getElem.mp h.named
  obtain ⟨_, hother, -⟩ := List.findIdx?_eq_some_iff_getElem.mp hother
  rw [decide_eq_true_eq] at hname hother
  exact hother.symm.trans hname

/-- A field of a record that is read from an object is the only member of its name. -/
theorem RecordShape.Stores.members (h : shape.Stores name place read get) {seen : List String}
    {record record' : σ} {members : List (Option String × Tree)} {js : List (String × Json)}
    (hjs : readMembers room members = .ok js)
    (hrecord : shape.members room seen record members = .ok record') :
    (get record' = get record ∧ membersNamed name js = []) ∨
      (name ∉ seen ∧
        ∃ v b, membersNamed name js = [v] ∧ BothRead read v b ∧ get record' = some b) := by
  induction members generalizing seen record js with
  | nil =>
    cases hjs
    cases hrecord
    exact Or.inl ⟨rfl, rfl⟩
  | cons member members ih =>
    obtain ⟨name?, value⟩ := member
    obtain ⟨name', j, js, hname, hj, hrest, rfl⟩ := readMembers_cons_eq_ok hjs
    have hrecord := eq_ok_of_bind hrecord hname
    cases hplace : shape.names.findIdx? (· = name') with
    | none =>
      rw [hplace] at hrecord
      obtain ⟨_, -, hrecord⟩ := bind_eq_ok_iff.mp hrecord
      have hne : name' ≠ name := by
        rintro rfl
        rw [h.named] at hplace
        cases hplace
      rw [membersNamed_cons, if_neg hne]
      exact ih hrest hrecord
    | some other =>
      rw [hplace] at hrecord
      by_cases hseen : name' ∈ seen
      · simp only [if_pos hseen] at hrecord
        cases hrecord
      simp only [if_neg hseen] at hrecord
      obtain ⟨stored, hstored, hrecord⟩ := bind_eq_ok_iff.mp hrecord
      have hlater := ih hrest hrecord
      by_cases hother : other = place
      · -- the field itself, which may not come again
        subst hother
        obtain rfl := h.eq_name hplace
        obtain ⟨b, hb, hget⟩ := h.stores hstored
        rcases hlater with ⟨hkept, hnone⟩ | ⟨hnew, -⟩
        · refine Or.inr ⟨hseen, j, b, ?_, ⟨room, value, hj, hb⟩, hkept.trans hget⟩
          rw [membersNamed_cons, if_pos rfl, hnone]
        · exact absurd List.mem_cons_self hnew
      · have hne : name' ≠ name := by
          rintro rfl
          rw [h.named] at hplace
          exact hother (Option.some.inj hplace).symm
        have hlt : other < shape.names.length :=
          (List.findIdx?_eq_some_iff_findIdx_eq.mp hplace).1
        rw [membersNamed_cons, if_neg hne, ← h.keeps hlt hother hstored]
        rcases hlater with hkept | ⟨hnew, hfound⟩
        · exact Or.inl hkept
        · exact Or.inr ⟨fun hmem => hnew (List.mem_cons_of_mem _ hmem), hfound⟩

/-- A field of a record that is read from a list is the item in its place. -/
theorem RecordShape.Stores.items (h : shape.Stores name place read get) {start : Nat}
    {record record' : σ} {items left : List Tree} {js : List Json}
    (hjs : readItems room items = .ok js)
    (hrecord : shape.items room start record items = .ok (record', left)) :
    get record' = get record ∨
      (start ≤ place ∧
        ∃ v b, js[place - start]? = some v ∧ BothRead read v b ∧ get record' = some b) := by
  induction items generalizing start record js with
  | nil =>
    cases hrecord
    exact Or.inl rfl
  | cons item items ih =>
    obtain ⟨j, js, hj, hrest, rfl⟩ := readItems_cons_eq_ok hjs
    rw [RecordShape.items] at hrecord
    split at hrecord
    · rename_i hlt
      obtain ⟨stored, hstored, hrecord⟩ := bind_eq_ok_iff.mp hrecord
      have hlater := ih hrest hrecord
      by_cases hstart : start = place
      · subst hstart
        obtain ⟨b, hb, hget⟩ := h.stores hstored
        rcases hlater with hkept | ⟨hle, -⟩
        · refine Or.inr ⟨Nat.le_refl _, j, b, ?_, ⟨room, item, hj, hb⟩, hkept.trans hget⟩
          rw [Nat.sub_self, List.getElem?_cons_zero]
        · omega
      · rw [← h.keeps hlt hstart hstored]
        rcases hlater with hkept | ⟨hle, v, b, hv, hb⟩
        · exact Or.inl hkept
        · refine Or.inr ⟨by omega, v, b, ?_, hb⟩
          have hplace : place - start = place - (start + 1) + 1 := by omega
          rw [hplace, List.getElem?_cons_succ]
          exact hv
    · cases hrecord
      exact Or.inl rfl

end

/-- What a record was completed from has its fields from the value of any shape. -/
theorem BothRead.record {σ α : Type} {shape : RecordShape σ} {start : σ}
    {complete : σ → Reading α} {j : Json} {a : α}
    (h : BothRead (fun room t => shape.read start complete room t) j a) :
    ∃ record, complete record = .ok a ∧
      ∀ {β : Type} {name : String} {place : Nat} {read : Nat → Tree → Reading β}
        {get : σ → Option β}, shape.Stores name place read get → get start = none →
        ∀ b, get record = some b → ∃ v, FieldAt name place j v ∧ BothRead read v b := by
  obtain ⟨room, t, hj, h⟩ := h
  cases t with
  | object members ending =>
    obtain ⟨inner, js, hinner, hjs, rfl⟩ := read_object_eq_ok hj
    have h := eq_ok_of_bind h hinner
    obtain ⟨record, hrecord, h⟩ := bind_eq_ok_iff.mp h
    obtain ⟨_, -, h⟩ := bind_eq_ok_iff.mp h
    refine ⟨record, h, fun {β name place read get} hstores hstart b hb => ?_⟩
    rcases hstores.members hjs hrecord with ⟨hkept, -⟩ | ⟨-, v, b', hv, hread, hget⟩
    · rw [hkept, hstart] at hb
      cases hb
    · rw [hget] at hb
      cases hb
      exact ⟨v, .member (by rw [onlyMember?, hv]), hread⟩
  | array items ending =>
    obtain ⟨inner, js, hinner, hjs, rfl⟩ := read_array_eq_ok hj
    have h := eq_ok_of_bind h hinner
    obtain ⟨⟨record, left⟩, hrecord, h⟩ := bind_eq_ok_iff.mp h
    have hcomplete : complete record = .ok a := by
      simp only at h
      split at h
      · obtain ⟨_, -, h⟩ := bind_eq_ok_iff.mp h
        exact h
      · cases h
    refine ⟨record, hcomplete, fun {β name place read get} hstores hstart b hb => ?_⟩
    rcases hstores.items hjs hrecord with hkept | ⟨-, v, b', hv, hread, hget⟩
    · rw [hkept, hstart] at hb
      cases hb
    · rw [hget] at hb
      cases hb
      exact ⟨v, .item hv, hread⟩
  | _ => cases h

/-! ## Whole texts -/

/-- A text that is read in both ways has one tree. -/
theorem exists_bothRead {α : Type} {read : Nat → Tree → Reading α} {text : String} {v : Json} {a : α}
    (hv : parse text = .ok v) (ha : readWith read text = .ok a) :
    ∃ j, v = j.sorted ∧ BothRead read j a := by
  obtain ⟨j, hj, hv⟩ := bind_eq_ok_iff.mp hv
  cases hv
  obtain ⟨j', hj', hj⟩ := bind_eq_ok_iff.mp hj
  obtain ⟨a', ha', ha⟩ := bind_eq_ok_iff.mp ha
  have hread : ∀ {γ : Type} {value value' : γ} {trailing : Bool},
      (if trailing then .error .malformed else pure value : Reading γ) = .ok value' →
        value = value' := by
    intro γ value value' trailing h
    cases trailing with
    | true => cases h
    | false =>
      cases h
      rfl
  obtain rfl := hread hj
  obtain rfl := hread ha
  exact ⟨j', rfl, nestingLimit, _, hj', ha'⟩

end TradingRules.Json
