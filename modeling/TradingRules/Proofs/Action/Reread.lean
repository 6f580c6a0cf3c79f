/-
# Actions that were written

The parameters of an action are written in the order of their names. Read one after the other they
make the same dictionary again, so an action that was written as JSON is read as it was, but for its
numbers.
-/
import TradingRules.Action.Json
import TradingRules.Proofs.Dictionary
import TradingRules.Proofs.Json.Reading

namespace TradingRules

open Json (Yields ofTagged rereadFloat rereadMembers)

/-! ## Parameters -/

namespace Parameter

/-- The numbers in a parameter. -/
def numbers : Parameter → List Float
  | .number x => [x]
  | .text _ => []

/-- A parameter with its number as it is read. -/
def reread : Parameter → Option Parameter
  | .number x => (rereadFloat x).map .number
  | .text s => some (.text s)

/-- A parameter is read unchanged if its number is. -/
theorem reread_eq_some_self_iff {p : Parameter} :
    p.reread = some p ↔ ∀ x ∈ p.numbers, rereadFloat x = some x := by
  cases p <;> simp [reread, numbers]

/-- A parameter that was written is read as it was but for its number: what was a number is not
taken for a text. -/
theorem bind_ofJson?_reread (p : Parameter) : p.toJson.reread.bind ofJson? = p.reread := by
  cases p with
  | number x =>
    show (Json.ofFloat x).reread.bind _ = ((Json.ofFloat x).reread.bind Json.float?).map _
    unfold Json.ofFloat
    split
    · show (Option.map Json.number _).bind _ = ((Option.map Json.number _).bind _).map _
      cases (Json.Number.float x).numeral.value? <;> rfl
    · rfl
  | text s => rfl

/-- A parameter is neither a list nor an object. -/
theorem nesting_toJson (p : Parameter) : p.toJson.nesting = 0 := by
  cases p with
  | number x => exact Json.nesting_ofFloat x
  | text s => rfl

end Parameter

namespace Parameters

/-- The numbers in parameters. -/
def numbers (p : Parameters) : List Float :=
  p.entries.flatMap (·.2.numbers)

/-- A parameter under its name with its number as it is read. -/
def rereadEntry (e : String × Parameter) : Option (String × Parameter) :=
  e.2.reread.map (e.1, ·)

/-- Parameters with their numbers as they are read. -/
def reread (p : Parameters) : Option Parameters :=
  (p.entries.mapM rereadEntry).map Dictionary.ofList

/-- Entries keep their names. -/
theorem map_fst_mapM_rereadEntry {entries entries' : List (String × Parameter)}
    (h : entries.mapM rereadEntry = some entries') : entries'.map (·.1) = entries.map (·.1) := by
  induction entries generalizing entries' with
  | nil =>
    cases h
    rfl
  | cons e rest ih =>
    rw [List.mapM_cons] at h
    obtain ⟨e', he, hbind⟩ := Option.bind_eq_some_iff.mp h
    obtain ⟨rest', hrest, hcons⟩ := Option.bind_eq_some_iff.mp hbind
    obtain ⟨value, -, rfl⟩ := Option.map_eq_some_iff.mp he
    cases hcons
    rw [List.map_cons, List.map_cons, ih hrest]

/-- Entries that are read make a dictionary of them: read or not, they have the same names. -/
theorem entries_ofList_of_mapM {p : Parameters} {entries : List (String × Parameter)}
    (h : p.entries.mapM rereadEntry = some entries) :
    (Dictionary.ofList entries).entries = entries := by
  have hnames : (entries.map (·.1)).Pairwise (· < ·) := by
    rw [map_fst_mapM_rereadEntry h]
    exact List.pairwise_map.mpr p.ascending
  exact Dictionary.entries_ofList (List.pairwise_map.mp hnames)

/-- Parameters are read unchanged if their entries are. -/
theorem reread_eq_some_self_iff_mapM {p : Parameters} :
    reread p = some p ↔ p.entries.mapM rereadEntry = some p.entries := by
  rw [reread, Option.map_eq_some_iff]
  constructor
  · rintro ⟨entries, hmap, hp⟩
    rw [hmap, ← hp, entries_ofList_of_mapM hmap]
  · intro h
    exact ⟨p.entries, h, Dictionary.ofList_entries p⟩

/-- Parameters are read unchanged if their numbers are. -/
theorem reread_eq_some_self_iff {p : Parameters} :
    reread p = some p ↔ ∀ x ∈ numbers p, rereadFloat x = some x := by
  have hentry : ∀ e : String × Parameter, rereadEntry e = some e ↔ e.2.reread = some e.2 := by
    intro e
    simp [rereadEntry, Option.map_eq_some_iff, Prod.ext_iff]
  rw [reread_eq_some_self_iff_mapM, Json.mapM_eq_some_self_iff, numbers, List.forall_mem_flatMap]
  exact forall₂_congr fun e _ => (hentry e).trans Parameter.reread_eq_some_self_iff

/-- Entries that were written are read as they were but for their numbers. -/
theorem bind_mapM_rereadMembers (entries : List (String × Parameter)) :
    ((rereadMembers (entries.map fun (name, value) => (name, value.toJson))).bind fun members =>
      members.mapM fun (name, value) => (Parameter.ofJson? value).map (name, ·)) =
      entries.mapM rereadEntry := by
  induction entries with
  | nil => rfl
  | cons e rest ih =>
    obtain ⟨name, value⟩ := e
    rw [List.map_cons, rereadMembers, List.mapM_cons, rereadEntry, ← value.bind_ofJson?_reread,
      ← ih]
    cases value.toJson.reread with
    | none => rfl
    | some j =>
      cases rereadMembers (rest.map fun (name, value) => (name, value.toJson)) with
      | none => cases hj : Parameter.ofJson? j <;> simp [hj]
      | some members =>
        show ((name, j) :: members).mapM _ = _
        rw [List.mapM_cons]
        rfl

/-- Parameters that were written are read as they were but for their numbers. -/
theorem bind_ofJson?_reread (p : Parameters) : (toJson p).reread.bind ofJson? = reread p := by
  rw [reread, ← bind_mapM_rereadMembers, toJson, Json.reread]
  cases rereadMembers (p.entries.map fun (name, value) => (name, value.toJson)) with
  | none => rfl
  | some members =>
    show (members.mapM _ >>= fun entries => some (Dictionary.ofList entries)) = _
    rw [Option.map_eq_bind]
    rfl

/-- Parameters are an object of values that open nothing. -/
theorem nesting_toJson (p : Parameters) : (toJson p).nesting = 1 := by
  have hnone :
      Json.nestingMembers (p.entries.map fun (name, value) => (name, value.toJson)) ≤ 0 := by
    rw [Json.nestingMembers_le_iff]
    intro member hmember
    obtain ⟨e, -, rfl⟩ := List.mem_map.mp hmember
    exact Nat.le_of_eq e.2.nesting_toJson
  show Json.nestingMembers _ + 1 = 1
  rw [Nat.le_zero.mp hnone]

end Parameters

/-! ## Actions -/

namespace Action

/-- The numbers in an action. -/
def numbers (a : Action) : List Float :=
  Parameters.numbers a.parameters

/-- An action with its numbers as they are read. -/
def reread (a : Action) : Option Action :=
  (Parameters.reread a.parameters).map (⟨a.kind, ·⟩)

/-- An action is read unchanged if its numbers are. -/
theorem reread_eq_some_self_iff {a : Action} :
    a.reread = some a ↔ ∀ x ∈ a.numbers, rereadFloat x = some x := by
  rw [numbers, ← Parameters.reread_eq_some_self_iff, reread, Option.map_eq_some_iff]
  constructor
  · rintro ⟨parameters, hparameters, ha⟩
    have hsame : parameters = a.parameters := congrArg Action.parameters ha
    rwa [hsame] at hparameters
  · intro h
    exact ⟨a.parameters, h, rfl⟩

/-- The word for a kind of order is the one of no other kind. -/
theorem ofWord?_word (kind : Kind) : Kind.ofWord? kind.word = some kind := by
  cases kind <;> rfl

/-- An action is an object that holds an object. -/
theorem nesting_toJson (a : Action) : a.toJson.nesting = 2 := by
  show max 0 (max (Parameters.toJson a.parameters).nesting 0) + 1 = 2
  rw [Parameters.nesting_toJson]
  rfl

/-- An action that was written is read as it was but for its numbers, if there is room for it. -/
theorem yields_read (a : Action) (room : Nat) :
    Yields (read room a.toJson.tree) (a.toJson.nesting ≤ room) a.reread := by
  have hfields : Json.tagName ∉ [("parameters", Parameters.toJson a.parameters)].map (·.1) := by
    simp [Json.tagName]
  have hread := (Json.yields_readTagged (ofWord?_word a.kind) hfields room).bind
    fun tagged => Yields.required (ofBody? tagged.1 tagged.2)
  have hvalue : ((rereadMembers [("parameters", Parameters.toJson a.parameters)]).map
      fun members => (a.kind, Json.Body.members members)).bind
        (fun tagged => ofBody? tagged.1 tagged.2) = a.reread := by
    rw [reread, ← Parameters.bind_ofJson?_reread, rereadMembers, rereadMembers]
    cases (Parameters.toJson a.parameters).reread <;> rfl
  rw [hvalue] at hread
  exact hread.congr (and_iff_left trivial)

end Action

end TradingRules
