/-
# Where the settings come from

A line stands in the section that was opened last before it. The settings of a text are those of its
lines: each key of each section has what its last line says, whether that gives a value or not. Every
step through the lines keeps this, so it holds behind the last one.
-/
import TradingRules.Proofs.Dictionary
import TradingRules.Proofs.Except
import TradingRules.Proofs.Settings.Line
import TradingRules.Settings.Basic

namespace TradingRules.Settings

open Text

/-- The lines of a text. -/
def linesOf (text : String) : List (List Char) :=
  splitOn '\n' text.toList

section

variable (lines : List (List Char))

/-- The line at a place opens a section. -/
def OpensAt (place : Nat) (name : String) : Prop :=
  ∃ line, lines[place]? = some line ∧ Says line (.section name)

/-- The section that is open in front of a place: the one that was opened last, and the default one
if none was. -/
def InSectionAt (place : Nat) (name : String) : Prop :=
  (∃ earlier < place, OpensAt lines earlier name ∧
    ∀ between, earlier < between → between < place → ∀ other, ¬ OpensAt lines between other) ∨
  (name = defaultSection ∧ ∀ earlier < place, ∀ other, ¬ OpensAt lines earlier other)

/-- A key of a section appears at a place, with a value or without one. -/
def AppearsAt (place : Nat) (name key : String) (value : Option String) : Prop :=
  InSectionAt lines place name ∧
    ∃ line, lines[place]? = some line ∧ Says line (.setting key value)

/-- What a key of a section has at its last appearance in front of a place. -/
def LastBefore (place : Nat) (name key : String) (value : Option String) : Prop :=
  ∃ last < place, AppearsAt lines last name key value ∧
    ∀ later, last < later → later < place → ∀ other, ¬ AppearsAt lines later name key other

/-- A key of a section does not appear at all. -/
def Absent (name key : String) : Prop :=
  ∀ place value, ¬ AppearsAt lines place name key value

/-- What a key of a section has at its last appearance. -/
def Last (name key : String) (value : Option String) : Prop :=
  ∃ last, AppearsAt lines last name key value ∧
    ∀ later, last < later → ∀ other, ¬ AppearsAt lines later name key other

end

variable {lines : List (List Char)}

/-! ## What a line says -/

/-- A line says one thing. -/
theorem Says.unique {line : List Char} {l l' : Line} (h : Says line l) (h' : Says line l') :
    l = l' := by
  have hread : Line.read 0 line = .ok (some l) := Line.read_eq_ok_some_iff.mpr h
  rw [Line.read_eq_ok_some_iff.mpr h'] at hread
  cases hread
  rfl

/-- A section is opened at a place exactly if the line that stands there does it. -/
theorem opensAt_iff {place : Nat} {line : List Char} {name : String}
    (hline : lines[place]? = some line) :
    OpensAt lines place name ↔ Says line (.section name) := by
  constructor
  · rintro ⟨line', hline', hopens⟩
    rw [hline] at hline'
    cases hline'
    exact hopens
  · exact fun hopens => ⟨line, hline, hopens⟩

/-- A key appears at a place exactly if the line that stands there sets it in its section. -/
theorem appearsAt_iff {place : Nat} {line : List Char} {name key : String} {value : Option String}
    (hline : lines[place]? = some line) :
    AppearsAt lines place name key value ↔
      InSectionAt lines place name ∧ Says line (.setting key value) := by
  refine and_congr_right fun _ => ⟨?_, fun hsets => ⟨line, hline, hsets⟩⟩
  rintro ⟨line', hline', hsets⟩
  rw [hline] at hline'
  cases hline'
  exact hsets

/-- A line that opens no section leaves the open section as it is. -/
theorem inSectionAt_succ_of_not_opensAt {place : Nat} {name : String}
    (h : ∀ other, ¬ OpensAt lines place other) :
    InSectionAt lines (place + 1) name ↔ InSectionAt lines place name := by
  constructor
  · rintro (⟨earlier, hearlier, hopens, hnone⟩ | ⟨hname, hnone⟩)
    · refine Or.inl ⟨earlier, ?_, hopens, fun between hlow hhigh => hnone between hlow (by omega)⟩
      rcases Nat.lt_or_eq_of_le (Nat.le_of_lt_succ hearlier) with hlt | rfl
      · exact hlt
      · exact absurd hopens (h name)
    · exact Or.inr ⟨hname, fun earlier hearlier => hnone earlier (by omega)⟩
  · rintro (⟨earlier, hearlier, hopens, hnone⟩ | ⟨hname, hnone⟩)
    · refine Or.inl ⟨earlier, by omega, hopens, fun between hlow hhigh => ?_⟩
      rcases Nat.lt_or_eq_of_le (Nat.le_of_lt_succ hhigh) with hlt | rfl
      · exact hnone between hlow hlt
      · exact h
    · refine Or.inr ⟨hname, fun earlier hearlier => ?_⟩
      rcases Nat.lt_or_eq_of_le (Nat.le_of_lt_succ hearlier) with hlt | rfl
      · exact hnone earlier hlt
      · exact h

/-- A line that opens a section makes it the open one. -/
theorem inSectionAt_succ_of_opensAt {place : Nat} {name name' : String}
    (h : OpensAt lines place name) : InSectionAt lines (place + 1) name' ↔ name' = name := by
  constructor
  · rintro (⟨earlier, hearlier, hopens, hnone⟩ | ⟨-, hnone⟩)
    · rcases Nat.lt_or_eq_of_le (Nat.le_of_lt_succ hearlier) with hlt | rfl
      · exact absurd h (hnone place hlt (by omega) name)
      · obtain ⟨line, hline, hcontent⟩ := h
        cases hcontent.unique ((opensAt_iff hline).mp hopens)
        rfl
    · exact absurd h (hnone place (by omega) name)
  · rintro rfl
    exact Or.inl ⟨place, by omega, h, fun between hlow hhigh => absurd hlow (by omega)⟩

/-- The last appearance in front of the next place is the one at this place, or else the last one in
front of it. -/
theorem lastBefore_succ {place : Nat} {name key : String} {value : Option String} :
    LastBefore lines (place + 1) name key value ↔
      AppearsAt lines place name key value ∨
        (∀ other, ¬ AppearsAt lines place name key other) ∧
          LastBefore lines place name key value := by
  constructor
  · rintro ⟨last, hlast, happears, hnone⟩
    rcases Nat.lt_or_eq_of_le (Nat.le_of_lt_succ hlast) with hlt | rfl
    · refine Or.inr ⟨hnone place hlt (by omega), last, hlt, happears, fun later hlow hhigh => ?_⟩
      exact hnone later hlow (by omega)
    · exact Or.inl happears
  · rintro (happears | ⟨hnot, last, hlast, happears, hnone⟩)
    · exact ⟨place, by omega, happears, fun later hlow hhigh => absurd hlow (by omega)⟩
    · refine ⟨last, by omega, happears, fun later hlow hhigh => ?_⟩
      rcases Nat.lt_or_eq_of_le (Nat.le_of_lt_succ hhigh) with hlt | rfl
      · exact hnone later hlow hlt
      · exact hnot

/-- A line that sets nothing has no appearance. -/
theorem lastBefore_succ_of_not_appearsAt {place : Nat} {name key : String} {value : Option String}
    (h : ∀ other, ¬ AppearsAt lines place name key other) :
    LastBefore lines (place + 1) name key value ↔ LastBefore lines place name key value := by
  rw [lastBefore_succ]
  constructor
  · rintro (happears | ⟨-, hlast⟩)
    · exact absurd happears (h value)
    · exact hlast
  · exact fun hlast => Or.inr ⟨h, hlast⟩

/-! ## Going through the lines -/

/-- The settings and the open section in front of a place, when the lines before it have been read. -/
inductive Reached (lines : List (List Char)) : Nat → Settings → String → Prop
  | start : Reached lines 0 {} defaultSection
  | blank {place : Nat} {s : Settings} {name : String} {line : List Char}
      (h : Reached lines place s name) (hline : lines[place]? = some line)
      (hcontent : ∀ l, ¬ Says line l) : Reached lines (place + 1) s name
  | opening {place : Nat} {s : Settings} {name name' : String} {line : List Char}
      (h : Reached lines place s name) (hline : lines[place]? = some line)
      (hcontent : Says line (.section name')) : Reached lines (place + 1) s name'
  | setting {place : Nat} {s : Settings} {name key : String} {value : Option String}
      {line : List Char} (h : Reached lines place s name) (hline : lines[place]? = some line)
      (hcontent : Says line (.setting key value)) :
      Reached lines (place + 1) (s.set name key value) name

/-- No more lines are read than there are. -/
theorem Reached.le_length {place : Nat} {s : Settings} {name : String}
    (h : Reached lines place s name) : place ≤ lines.length := by
  cases h with
  | start => exact Nat.zero_le _
  | blank h hline hcontent => exact (List.getElem?_eq_some_iff.mp hline).1
  | opening h hline hcontent => exact (List.getElem?_eq_some_iff.mp hline).1
  | setting h hline hcontent => exact (List.getElem?_eq_some_iff.mp hline).1

/-- Reading on from a place ends behind the last line. -/
theorem Reached.of_readLines {s s' : Settings} {name : String} {place number : Nat}
    {rest : List (List Char)} (h : Reached lines place s name) (hrest : lines.drop place = rest)
    (hread : s.readLines name number rest = .ok s') :
    ∃ name', Reached lines lines.length s' name' := by
  -- the lines that are left are those from the place on
  induction rest generalizing place s name number with
  | nil =>
    rw [readLines] at hread
    cases hread
    have hend : place = lines.length :=
      Nat.le_antisymm h.le_length (List.drop_eq_nil_iff.mp hrest)
    exact ⟨name, hend ▸ h⟩
  | cons line rest ih =>
    have hline : lines[place]? = some line := by
      rw [← List.head?_drop, hrest]
      rfl
    have hnext : lines.drop (place + 1) = rest := by
      rw [← List.tail_drop, hrest]
      rfl
    rw [readLines] at hread
    obtain ⟨said, hsaid, hread⟩ := bind_eq_ok_iff.mp hread
    cases said with
    | none =>
      refine ih (h.blank hline fun l hcontent => ?_) hnext hread
      rw [Line.read_eq_ok_some_iff.mpr hcontent] at hsaid
      cases hsaid
    | some l =>
      have hcontent : Says line l := Line.read_eq_ok_some_iff.mp hsaid
      cases l with
      | «section» name' => exact ih (h.opening hline hcontent) hnext hread
      | setting key value => exact ih (h.setting hline hcontent) hnext hread

/-- The open section is the one that the lines so far leave open. -/
theorem Reached.inSectionAt_iff {place : Nat} {s : Settings} {name name' : String}
    (h : Reached lines place s name) : InSectionAt lines place name' ↔ name' = name := by
  induction h with
  | start =>
    constructor
    · rintro (⟨earlier, hearlier, -⟩ | ⟨hname, -⟩)
      · exact absurd hearlier (by omega)
      · exact hname
    · exact fun hname => Or.inr ⟨hname, fun earlier hearlier => absurd hearlier (by omega)⟩
  | blank h hline hcontent ih =>
    refine (inSectionAt_succ_of_not_opensAt fun other hopens => ?_).trans ih
    exact hcontent _ ((opensAt_iff hline).mp hopens)
  | opening h hline hcontent ih => exact inSectionAt_succ_of_opensAt ⟨_, hline, hcontent⟩
  | setting h hline hcontent ih =>
    refine (inSectionAt_succ_of_not_opensAt fun other hopens => ?_).trans ih
    cases hcontent.unique ((opensAt_iff hline).mp hopens)

/-- The settings of a section with one key set are those of before but for this key. -/
theorem get?_inSection_set (s : Settings) (name key name' key' : String) (value : Option String) :
    ((s.set name key value).inSection name').get? key' =
      if name' = name ∧ key' = key then some value else (s.inSection name').get? key' := by
  have hsection : (s.set name key value).inSection name' =
      if name' = name then (s.inSection name).insert key value else s.inSection name' := by
    show ((s.sections.insert name _).get? name').getD .empty = _
    rw [Dictionary.get?_insert]
    split
    · rfl
    · rfl
  rw [hsection]
  by_cases hname : name' = name
  · subst hname
    rw [if_pos rfl, Dictionary.get?_insert]
    simp only [true_and]
  · rw [if_neg hname, if_neg fun hboth => hname hboth.1]

/-- Each key of each section has what its last line so far says. -/
theorem Reached.get?_eq_some_iff {place : Nat} {s : Settings} {open' name key : String}
    {value : Option String} (h : Reached lines place s open') :
    (s.inSection name).get? key = some value ↔ LastBefore lines place name key value := by
  induction h with
  | start =>
    constructor
    · intro hget
      cases hget
    · rintro ⟨last, hlast, -⟩
      exact absurd hlast (by omega)
  | blank h hline hcontent ih =>
    refine ih.trans (lastBefore_succ_of_not_appearsAt fun other happears => ?_).symm
    exact hcontent _ ((appearsAt_iff hline).mp happears).2
  | opening h hline hcontent ih =>
    refine ih.trans (lastBefore_succ_of_not_appearsAt fun other happears => ?_).symm
    cases hcontent.unique ((appearsAt_iff hline).mp happears).2
  | @setting place s current key' value' line h hline hcontent ih =>
    have happears (other : Option String) : AppearsAt lines place name key other ↔
        (name = current ∧ key = key') ∧ other = value' := by
      rw [appearsAt_iff hline, h.inSectionAt_iff, and_assoc]
      refine and_congr_right fun _ => ⟨fun hsets => ?_, ?_⟩
      · cases hcontent.unique hsets
        exact ⟨rfl, rfl⟩
      · rintro ⟨rfl, rfl⟩
        exact hcontent
    rw [get?_inSection_set]
    -- the line takes the place of every appearance of its own key, and of no other one
    by_cases hsame : name = current ∧ key = key'
    · rw [if_pos hsame, Option.some_inj, lastBefore_succ, happears, and_iff_right hsame]
      constructor
      · rintro rfl
        exact Or.inl rfl
      · rintro (hvalue | ⟨hnone, -⟩)
        · exact hvalue.symm
        · exact absurd ((happears value').mpr ⟨hsame, rfl⟩) (hnone value')
    · rw [if_neg hsame, ih]
      refine (lastBefore_succ_of_not_appearsAt fun other hother => ?_).symm
      exact hsame ((happears other).mp hother).1

/-! ## The settings of a text -/

/-- Nothing appears behind the last line. -/
theorem AppearsAt.lt_length {place : Nat} {name key : String} {value : Option String}
    (h : AppearsAt lines place name key value) : place < lines.length := by
  obtain ⟨-, line, hline, -⟩ := h
  exact (List.getElem?_eq_some_iff.mp hline).1

/-- What a key has in the end is what it has at its last appearance. -/
theorem lastBefore_length_iff {name key : String} {value : Option String} :
    LastBefore lines lines.length name key value ↔ Last lines name key value := by
  constructor
  · rintro ⟨last, -, happears, hnone⟩
    exact ⟨last, happears, fun later hlater other hother =>
      hnone later hlater hother.lt_length other hother⟩
  · rintro ⟨last, happears, hnone⟩
    exact ⟨last, happears.lt_length, happears, fun later hlater _ => hnone later hlater⟩

/-- A key that appears in front of a place has a last appearance there. -/
theorem exists_lastBefore {place earlier : Nat} {name key : String} {value : Option String}
    (h : AppearsAt lines earlier name key value) (hearlier : earlier < place) :
    ∃ value', LastBefore lines place name key value' := by
  induction place with
  | zero => exact absurd hearlier (Nat.not_lt_zero _)
  | succ place ih =>
    by_cases hhere : ∃ other, AppearsAt lines place name key other
    · obtain ⟨other, happears⟩ := hhere
      exact ⟨other, lastBefore_succ.mpr (Or.inl happears)⟩
    · have hnone : ∀ other, ¬ AppearsAt lines place name key other := not_exists.mp hhere
      have hlt : earlier < place := by
        rcases Nat.lt_or_eq_of_le (Nat.le_of_lt_succ hearlier) with hlt | rfl
        · exact hlt
        · exact absurd h (hnone value)
      obtain ⟨value', hlast⟩ := ih hlt
      exact ⟨value', lastBefore_succ.mpr (Or.inr ⟨hnone, hlast⟩)⟩

/-- A key does not appear exactly if it has no last appearance. -/
theorem absent_iff {name key : String} :
    Absent lines name key ↔ ∀ value, ¬ Last lines name key value := by
  constructor
  · rintro habsent value ⟨last, happears, -⟩
    exact habsent last value happears
  · intro hnone place value happears
    obtain ⟨value', hlast⟩ := exists_lastBefore happears happears.lt_length
    exact hnone value' (lastBefore_length_iff.mp hlast)

/-- A name as it is looked up: in lower case. -/
def lowered (name : String) : String :=
  String.ofList (lower name.toList)

/-- The settings of a text give each key what it has at its last appearance. -/
theorem get?_eq_some_iff {text name key : String} {s : Settings} {value : Option String}
    (h : parse text = .ok s) :
    s.get? name key = some value ↔ Last (linesOf text) (lowered name) (lowered key) value := by
  obtain ⟨last, hreached⟩ := Reached.start.of_readLines rfl h
  exact hreached.get?_eq_some_iff.trans lastBefore_length_iff

/-- The settings of a text give nothing for a key exactly if it does not appear. -/
theorem get?_eq_none_iff {text name key : String} {s : Settings} (h : parse text = .ok s) :
    s.get? name key = none ↔ Absent (linesOf text) (lowered name) (lowered key) := by
  rw [absent_iff, Option.eq_none_iff_forall_ne_some]
  exact forall_congr' fun value => not_congr (get?_eq_some_iff h)

end TradingRules.Settings
