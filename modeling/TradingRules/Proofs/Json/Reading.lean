/-
# What is read of what was written

A reader of a value that was written fails for two reasons only. The value may nest deeper than
there is room for, and then it is malformed; or a number may be read as none. Otherwise it is read
with every number as its numeral is read. This holds of readers of any value, of tagged values and
of lists, and it is kept when readers are put one behind the other.
-/
import TradingRules.Json.Tagged
import TradingRules.Proofs.Json.Tree

namespace TradingRules.Json

/-! ## Nesting -/

mutual

/-- How many lists and objects are open at once in a value. -/
def nesting : Json → Nat
  | .array items => nestingItems items + 1
  | .object members => nestingMembers members + 1
  | .null | .bool _ | .number _ | .string _ => 0
termination_by structural j => j

/-- The deepest nesting of an item. -/
def nestingItems : List Json → Nat
  | [] => 0
  | item :: rest => max item.nesting (nestingItems rest)
termination_by structural items => items

/-- The deepest nesting of a member. -/
def nestingMembers : List (String × Json) → Nat
  | [] => 0
  | (_, value) :: rest => max value.nesting (nestingMembers rest)
termination_by structural members => members

end

/-- Items nest at most as deep as a bound if each of them does. -/
theorem nestingItems_le_iff {items : List Json} {bound : Nat} :
    nestingItems items ≤ bound ↔ ∀ item ∈ items, item.nesting ≤ bound := by
  induction items with
  | nil => simp [nestingItems]
  | cons item rest ih => rw [nestingItems, Nat.max_le, ih, List.forall_mem_cons]

/-- Members nest at most as deep as a bound if the value of each of them does. -/
theorem nestingMembers_le_iff {members : List (String × Json)} {bound : Nat} :
    nestingMembers members ≤ bound ↔ ∀ member ∈ members, member.2.nesting ≤ bound := by
  induction members with
  | nil => simp [nestingMembers]
  | cons member rest ih => rw [nestingMembers, Nat.max_le, ih, List.forall_mem_cons]

/-! ## Values with their numbers as they are read -/

mutual

/-- A value with every number as its numeral is read, if all of them are. -/
def reread : Json → Option Json
  | .null => some .null
  | .bool b => some (.bool b)
  | .number n => n.numeral.value?.map .number
  | .string s => some (.string s)
  | .array items => (rereadItems items).map .array
  | .object members => (rereadMembers members).map .object
termination_by structural j => j

/-- Items with every number as it is read. -/
def rereadItems : List Json → Option (List Json)
  | [] => some []
  | item :: rest => do
    let item ← item.reread
    (rereadItems rest).map (item :: ·)
termination_by structural items => items

/-- Members with every number as it is read. -/
def rereadMembers : List (String × Json) → Option (List (String × Json))
  | [] => some []
  | (name, value) :: rest => do
    let value ← value.reread
    (rereadMembers rest).map ((name, value) :: ·)
termination_by structural members => members

end

/-! ## Readings -/

/-- What comes of reading something that may not fit into the room that is left: if it fits it gives
its value, if not it is malformed. Without a value the reading fails anyhow. -/
structure Yields {α : Type} (reading : Reading α) (fits : Prop) (value : Option α) : Prop where
  of_fits : fits → ∀ a, value = some a → reading = .ok a
  of_not_fits : ¬ fits → value.isSome → reading = .error .malformed
  of_none : value = none → ∃ e, reading = .error e

namespace Yields

variable {α β : Type} {reading : Reading α} {fits fits' : Prop} {value : Option α}

theorem ok (a : α) : Yields (.ok a) True (some a) where
  of_fits _ _ h := congrArg Except.ok (Option.some.inj h)
  of_not_fits h _ := absurd trivial h
  of_none h := nomatch h

/-- A reading without a value need not be looked at for its room. -/
theorem error (e : ReadError) (fits : Prop) : Yields (.error e : Reading α) fits none where
  of_fits _ _ h := nomatch h
  of_not_fits _ h := nomatch h
  of_none _ := ⟨e, rfl⟩

/-- A reading gives a value just if it fits and this is its value. -/
theorem eq_ok_iff (h : Yields reading fits value) {a : α} :
    reading = .ok a ↔ fits ∧ value = some a := by
  constructor
  · intro hok
    cases hvalue : value with
    | none =>
      obtain ⟨e, he⟩ := h.of_none hvalue
      rw [hok] at he
      cases he
    | some b =>
      by_cases hfits : fits
      · have hb := h.of_fits hfits b hvalue
        rw [hok] at hb
        cases hb
        exact ⟨hfits, rfl⟩
      · have hb := h.of_not_fits hfits (hvalue ▸ rfl)
        rw [hok] at hb
        cases hb
  · rintro ⟨hfits, hvalue⟩
    exact h.of_fits hfits a hvalue

theorem congr (h : Yields reading fits value) (hfits : fits ↔ fits') :
    Yields reading fits' value := by
  rwa [← propext hfits]

/-- Two readings, the second one for the value of the first, need room for both. -/
theorem bind (h : Yields reading fits value) {next : α → Reading β} {nextValue : α → Option β}
    (hnext : ∀ a, Yields (next a) fits' (nextValue a)) :
    Yields (reading >>= next) (fits ∧ fits') (value.bind nextValue) where
  of_fits hfits b hb := by
    obtain ⟨a, ha, hab⟩ := Option.bind_eq_some_iff.mp hb
    rw [h.of_fits hfits.1 a ha]
    exact (hnext a).of_fits hfits.2 b hab
  of_not_fits hfits hb := by
    obtain ⟨b, hb⟩ := Option.isSome_iff_exists.mp hb
    obtain ⟨a, ha, hab⟩ := Option.bind_eq_some_iff.mp hb
    by_cases hfirst : fits
    · rw [h.of_fits hfirst a ha]
      exact (hnext a).of_not_fits (fun hsecond => hfits ⟨hfirst, hsecond⟩) (hab ▸ rfl)
    · rw [h.of_not_fits hfirst (ha ▸ rfl)]
      rfl
  of_none hb := by
    -- the reading fails at the first part that has no value, or before it for want of room
    cases value with
    | none =>
      obtain ⟨e, he⟩ := h.of_none rfl
      exact ⟨e, by rw [he]; rfl⟩
    | some a =>
      by_cases hfirst : fits
      · rw [h.of_fits hfirst a rfl]
        exact (hnext a).of_none hb
      · rw [h.of_not_fits hfirst rfl]
        exact ⟨.malformed, rfl⟩

/-- What is made of a value needs no room. -/
theorem map (h : Yields reading fits value) (f : α → β) :
    Yields (reading >>= fun a => .ok (f a)) fits (value.map f) := by
  rw [Option.map_eq_bind]
  exact (h.bind fun a => ok (f a)).congr (and_iff_left trivial)

/-- A value that must be there needs no room. -/
theorem required (value : Option α) : Yields (required value) True value := by
  cases value with
  | none => exact error _ _
  | some a => exact ok a

/-- A list or an object needs room for one more than what it holds. -/
theorem openNested {read : Nat → Reading α} {depth : Nat}
    (h : ∀ room, Yields (read room) (depth ≤ room) value) (room : Nat) :
    Yields (openNested room >>= read) (depth + 1 ≤ room) value := by
  cases room with
  | zero =>
    exact {
      of_fits := fun hfits => absurd hfits (Nat.not_succ_le_zero depth)
      of_not_fits := fun _ _ => rfl
      of_none := fun _ => ⟨_, rfl⟩ }
  | succ room => exact (h room).congr Nat.succ_le_succ_iff.symm

end Yields

/-! ## Values of any shape -/

theorem Numeral.yields_read (n : Numeral) : Yields n.read True n.value? := by
  unfold Numeral.read
  cases n.value? with
  | none => exact .error _ _
  | some x => exact .ok x

mutual

/-- A value that was written is read with its numbers as they are read. -/
theorem yields_read (j : Json) (room : Nat) :
    Yields (j.tree.read room) (j.nesting ≤ room) j.reread := by
  match j with
  | .null => exact (Yields.ok _).congr (iff_of_true trivial (Nat.zero_le room))
  | .bool b => exact (Yields.ok _).congr (iff_of_true trivial (Nat.zero_le room))
  | .number n =>
    exact (n.numeral.yields_read.map Json.number).congr (iff_of_true trivial (Nat.zero_le room))
  | .string s => exact (Yields.ok _).congr (iff_of_true trivial (Nat.zero_le room))
  | .array items =>
    exact Yields.openNested (fun room => (yields_readItems items room).map Json.array) room
  | .object members =>
    exact Yields.openNested (fun room => (yields_readMembers members room).map Json.object) room
termination_by structural j

/-- Items that were written are read one after the other. -/
theorem yields_readItems (items : List Json) (room : Nat) :
    Yields (readItems room (itemTrees items)) (nestingItems items ≤ room) (rereadItems items) := by
  match items with
  | [] => exact (Yields.ok _).congr (iff_of_true trivial (Nat.zero_le room))
  | item :: rest =>
    have hrest := fun j => (yields_readItems rest room).map (j :: ·)
    exact ((yields_read item room).bind hrest).congr Nat.max_le.symm
termination_by structural items

/-- Members that were written are read one after the other. -/
theorem yields_readMembers (members : List (String × Json)) (room : Nat) :
    Yields (readMembers room (memberTrees members)) (nestingMembers members ≤ room)
      (rereadMembers members) := by
  match members with
  | [] => exact (Yields.ok _).congr (iff_of_true trivial (Nat.zero_le room))
  | (name, value) :: rest =>
    have hrest := fun j => (yields_readMembers rest room).map ((name, j) :: ·)
    exact ((yields_read value room).bind hrest).congr Nat.max_le.symm
termination_by structural members

end

/-! ## Tagged values -/

section

variable {τ : Type} {known : String → Option τ} {tag : τ} {name : String}

/-- Behind the tag, the fields are read like any members. -/
theorem readTaggedMembers_memberTrees (known : String → Option τ) (tag : τ)
    {fields : List (String × Json)} (hfields : tagName ∉ fields.map (·.1)) (room : Nat) :
    readTaggedMembers known room (some tag) (memberTrees fields) =
      readMembers room (memberTrees fields) >>= fun members => .ok (some tag, members) := by
  induction fields with
  | nil => rfl
  | cons field rest ih =>
    rw [List.map_cons, List.mem_cons, not_or] at hfields
    obtain ⟨hfield, hrest⟩ := hfields
    obtain ⟨fieldName, value⟩ := field
    show (if fieldName = tagName then _ else _) = _
    rw [if_neg (Ne.symm hfield), memberTrees, readMembers]
    simp only [ih hrest, bind, Except.bind, readName, pure, Except.pure]
    cases value.tree.read room with
    | error e => rfl
    | ok j => cases readMembers room (memberTrees rest) <;> rfl

/-- A tagged value that was written is read as its tag and its fields. -/
theorem yields_readTagged (hknown : known name = some tag) {fields : List (String × Json)}
    (hfields : tagName ∉ fields.map (·.1)) (room : Nat) :
    Yields ((ofTagged name fields).tree.readTagged known room)
      ((ofTagged name fields).nesting ≤ room)
      ((rereadMembers fields).map fun members => (tag, Body.members members)) := by
  have hnesting : (ofTagged name fields).nesting = nestingMembers fields + 1 :=
    congrArg (· + 1) (Nat.zero_max _)
  have hread : ∀ room, (readTaggedMembers known room none
      (memberTrees ((tagName, .string name) :: fields)) >>= fun found =>
        required found.1 >>= fun tag => .ok (tag, Body.members found.2)) =
      readMembers room (memberTrees fields) >>= fun members =>
        (.ok (tag, Body.members members) : Reading (τ × Body)) := by
    intro room
    -- the tag is written first, so no field is met before it
    show ((required (known name) >>= fun tag =>
      readTaggedMembers known room (some tag) (memberTrees fields)) >>= _) = _
    rw [hknown]
    show (readTaggedMembers known room (some tag) (memberTrees fields) >>= _) = _
    rw [readTaggedMembers_memberTrees known tag hfields]
    cases readMembers room (memberTrees fields) <;> rfl
  rw [hnesting]
  refine Yields.openNested (fun room => ?_) room
  show Yields (readTaggedMembers known room none
    (memberTrees ((tagName, .string name) :: fields)) >>= fun found =>
      required found.1 >>= fun tag => .ok (tag, Body.members found.2)) _ _
  rw [hread]
  exact (yields_readMembers fields room).map fun members => (tag, Body.members members)

/-- A tagged value splits into its tag and its fields. -/
theorem tagged?_ofTagged {tag? : Json → Option τ} (htag : tag? (.string name) = some tag)
    {fields : List (String × Json)} (hfields : tagName ∉ fields.map (·.1)) :
    (ofTagged name fields).tagged? tag? = some (tag, .members fields) := by
  have hname : ∀ field ∈ fields, field.1 ≠ tagName :=
    fun field hfield h => hfields (List.mem_map.mpr ⟨field, hfield, h⟩)
  have hnone : fields.filter (·.1 = tagName) = [] :=
    List.filter_eq_nil_iff.mpr fun field h => by simpa using hname field h
  have hall : fields.filter (·.1 ≠ tagName) = fields :=
    List.filter_eq_self.mpr fun field h => by simpa using hname field h
  have honly : onlyMember? tagName ((tagName, .string name) :: fields) = some (.string name) := by
    rw [onlyMember?, membersNamed, List.filter_cons, if_pos (by simp), hnone]
    rfl
  rw [ofTagged, tagged?, honly]
  show (tag? (.string name) >>= _) = _
  rw [htag]
  show some (tag, Body.members (((tagName, Json.string name) :: fields).filter _)) = _
  rw [List.filter_cons, if_neg (by simp), hall]

/-- Reading the numbers of a tagged value does not touch its tag. -/
theorem reread_ofTagged (name : String) (fields : List (String × Json)) :
    (ofTagged name fields).reread = (rereadMembers fields).map (ofTagged name) := by
  show (do
    let value ← (Json.string name).reread
    (rereadMembers fields).map ((tagName, value) :: ·)).map Json.object = _
  cases rereadMembers fields <;> rfl

theorem reread_ofTagged_singleton (name field : String) (value : Json) :
    (ofTagged name [(field, value)]).reread =
      value.reread.map fun value => ofTagged name [(field, value)] := by
  rw [reread_ofTagged]
  show Option.map _ (value.reread.bind fun value => some [(field, value)]) = _
  cases value.reread <;> rfl

/-- Members keep their names when their numbers are read. -/
theorem map_fst_rereadMembers {fields members : List (String × Json)}
    (h : rereadMembers fields = some members) : members.map (·.1) = fields.map (·.1) := by
  induction fields generalizing members with
  | nil =>
    cases h
    rfl
  | cons field rest ih =>
    obtain ⟨value, -, hmap⟩ := Option.bind_eq_some_iff.mp h
    obtain ⟨members, hmembers, rfl⟩ := Option.map_eq_some_iff.mp hmap
    rw [List.map_cons, List.map_cons, ih hmembers]

/-- A tagged value with its numbers as they are read still splits into its tag and its fields. -/
theorem bind_tagged?_reread {tag? : Json → Option τ} (htag : tag? (.string name) = some tag)
    {fields : List (String × Json)} (hfields : tagName ∉ fields.map (·.1)) :
    (ofTagged name fields).reread.bind (tagged? tag?) =
      (rereadMembers fields).map fun members => (tag, Body.members members) := by
  rw [reread_ofTagged]
  cases hmembers : rereadMembers fields with
  | none => rfl
  | some members =>
    refine tagged?_ofTagged htag ?_
    rwa [map_fst_rereadMembers hmembers]

end

/-! ## Lists -/

section

variable {α : Type} {read : Nat → Tree → Reading α} {write : α → Json} {value : α → Option α}

/-- Values that were written are read one after the other. -/
theorem yields_readEach
    (h : ∀ a room, Yields (read room (write a).tree) ((write a).nesting ≤ room) (value a))
    (as : List α) (room : Nat) :
    Yields (readEach (read room) (itemTrees (as.map write))) (nestingItems (as.map write) ≤ room)
      (as.mapM value) := by
  induction as with
  | nil => exact (Yields.ok _).congr (iff_of_true trivial (Nat.zero_le room))
  | cons a rest ih =>
    rw [List.mapM_cons]
    exact ((h a room).bind fun a => ih.bind fun rest => .ok (a :: rest)).congr
      (by rw [and_iff_left trivial]; exact Nat.max_le.symm)

/-- A list is what its items make one after the other if each of them makes itself. -/
theorem mapM_eq_some_self_iff {as : List α} :
    as.mapM value = some as ↔ ∀ a ∈ as, value a = some a := by
  induction as with
  | nil => simp
  | cons a rest ih =>
    rw [List.forall_mem_cons, ← ih, List.mapM_cons]
    simp [Option.bind_eq_some_iff]

/-- A list of values that was written is read as a list. -/
theorem yields_readList
    (h : ∀ a room, Yields (read room (write a).tree) ((write a).nesting ≤ room) (value a))
    (as : List α) (room : Nat) :
    Yields ((Json.array (as.map write)).tree.readList room read)
      ((Json.array (as.map write)).nesting ≤ room) (as.mapM value) := by
  refine Yields.openNested (fun room => ?_) room
  have heach := (yields_readEach h as room).map id
  rwa [Option.map_id, id] at heach

end

/-! ## Records -/

section

variable {σ α : Type} {shape : RecordShape σ} {first second : String}

/-- A record of two fields that was written is read field by field, and then completed. -/
theorem RecordShape.read_pair (hnames : shape.names = [first, second]) (hne : first ≠ second)
    (start : σ) (complete : σ → Reading α) (room : Nat) (v w : Json) :
    shape.read start complete room (Json.object [(first, v), (second, w)]).tree =
      openNested room >>= fun room => shape.store room 0 start v.tree >>= fun record =>
        shape.store room 1 record w.tree >>= complete := by
  have hfirst : shape.names.findIdx? (· = first) = some 0 := by
    simp [hnames, List.findIdx?_cons]
  have hsecond : shape.names.findIdx? (· = second) = some 1 := by
    simp [hnames, hne, List.findIdx?_cons]
  have hseen : second ∉ [first] := by simpa using hne.symm
  rw [tree, memberTrees, memberTrees, memberTrees, read]
  simp only [members, readName, hfirst, hsecond, bind, Except.bind]
  cases openNested room with
  | error e => rfl
  | ok room =>
    simp only [List.not_mem_nil, if_false]
    cases shape.store room 0 start v.tree with
    | error e => rfl
    | ok record =>
      simp only [if_neg hseen]
      cases shape.store room 1 record w.tree <;> rfl

/-- A record of two fields needs room for one more than its fields. -/
theorem yields_record (hnames : shape.names = [first, second]) (hne : first ≠ second)
    {start : σ} {complete : σ → Reading α} {v w : Json} {firstValue : Option σ}
    {secondValue : σ → Option σ} {value : σ → Option α}
    (hfirst : ∀ room, Yields (shape.store room 0 start v.tree) (v.nesting ≤ room) firstValue)
    (hsecond : ∀ room record,
      Yields (shape.store room 1 record w.tree) (w.nesting ≤ room) (secondValue record))
    (hcomplete : ∀ record, Yields (complete record) True (value record)) (room : Nat) :
    Yields (shape.read start complete room (Json.object [(first, v), (second, w)]).tree)
      ((Json.object [(first, v), (second, w)]).nesting ≤ room)
      (firstValue.bind fun record => (secondValue record).bind value) := by
  have hnesting : (Json.object [(first, v), (second, w)]).nesting =
      max v.nesting w.nesting + 1 := by
    show max v.nesting (max w.nesting 0) + 1 = _
    rw [Nat.max_zero]
  rw [shape.read_pair hnames hne, hnesting]
  refine Yields.openNested (fun room => ?_) room
  refine ((hfirst room).bind fun record => (hsecond room record).bind hcomplete).congr ?_
  rw [and_iff_left trivial, Nat.max_le]

end

/-! ## Numbers of double precision -/

/-- A number opens nothing. -/
theorem nesting_ofFloat (x : Float) : (ofFloat x).nesting = 0 := by
  unfold ofFloat
  split <;> rfl

/-- What the text of a number is read as; none for a number that JSON cannot express. -/
def rereadFloat (x : Float) : Option Float :=
  (ofFloat x).reread.bind float?

theorem yields_readFloat (x : Float) : Yields (ofFloat x).tree.readFloat True (rereadFloat x) := by
  unfold rereadFloat ofFloat
  split
  · have hnumber := (Number.float x).numeral.yields_read.map Number.toFloat
    rw [Option.map_eq_bind] at hnumber
    rw [reread, Option.bind_map]
    exact hnumber
  · exact .error _ _

/-! ## Whole texts -/

/-- What is read of the pretty text of a value is what is read of its tree. -/
theorem readWith_pretty {α : Type} (read : Nat → Tree → Reading α) (j : Json) :
    readWith read j.pretty = read nestingLimit j.tree := by
  rw [readWith]
  simp only [document_pretty]
  cases read nestingLimit j.tree <;> rfl

/-- A number is read as another from its own text. -/
def FloatReadsAs (x y : Float) : Prop :=
  readWith (fun _ => Tree.readFloat) (ofFloat x).compact = .ok y

theorem floatReadsAs_iff {x y : Float} : FloatReadsAs x y ↔ rereadFloat x = some y := by
  have hcompact : (ofFloat x).compact = (ofFloat x).pretty := by
    unfold ofFloat
    split <;> rfl
  rw [FloatReadsAs, hcompact, readWith_pretty, (yields_readFloat x).eq_ok_iff, true_and]

end TradingRules.Json
