/-
# Entries of a call

The arguments of a call are entries between commas. An entry with an equality sign is a pair of a name
and a value; any other entry is a token. A value is a finite number, which may carry a percent sign, or
a text.
-/
import TradingRules.Action.Parser
import TradingRules.Proofs.Decimal.Written
import TradingRules.Proofs.Text.Search

namespace TradingRules

open TradingRules.Text

/-! ## Values -/

namespace Parameter

/-- A value and what is left of it without a percent sign at its end. Only one sign is taken off. -/
def IsWithoutPercent (text bare : List Char) : Prop :=
  text = bare ++ ['%'] ∨ text = bare ∧ text.getLast? ≠ some '%'

theorem isWithoutPercent_iff {text bare : List Char} :
    IsWithoutPercent text bare ↔ withoutPercent text = bare := by
  unfold IsWithoutPercent withoutPercent
  constructor
  · rintro (rfl | ⟨rfl, hlast⟩)
    · rw [List.getLast?_concat, if_pos rfl, List.dropLast_concat]
    · rw [if_neg hlast]
  · rintro rfl
    split_ifs with hlast
    · obtain ⟨front, rfl⟩ := List.getLast?_eq_some_iff.mp hlast
      left
      rw [List.dropLast_concat]
    · exact Or.inr ⟨rfl, hlast⟩

/-- What a value stands for: a finite number, if it writes one apart from a percent sign and blanks,
and otherwise the text as it is. -/
def Denotes (text : List Char) : Parameter → Prop
  | .number x => ∃ bare, IsWithoutPercent text bare ∧ Decimal.WritesFinite (trim bare) x
  | .text s => s = String.ofList text ∧
      ∀ bare x, IsWithoutPercent text bare → ¬ Decimal.WritesFinite (trim bare) x

/-- What is read stands for the value. -/
theorem denotes_parse (text : List Char) : Denotes text (parse text) := by
  have hbare : IsWithoutPercent text (withoutPercent text) := isWithoutPercent_iff.mpr rfl
  have htext (h : ∀ x, ¬ Decimal.WritesFinite (trim (withoutPercent text)) x) :
      Denotes text (.text (String.ofList text)) := by
    refine ⟨rfl, ?_⟩
    intro bare x hbare'
    rw [← isWithoutPercent_iff.mp hbare']
    exact h x
  unfold parse
  split
  · rename_i x hread
    split_ifs with hfinite
    · exact ⟨_, hbare, Decimal.read_finite_iff.mp ⟨hread, hfinite⟩⟩
    · apply htext
      intro y hwrites
      obtain ⟨hread', hfinite'⟩ := Decimal.read_finite_iff.mpr hwrites
      rw [hread] at hread'
      cases hread'
      exact hfinite hfinite'
  · rename_i hread
    apply htext
    intro y hwrites
    obtain ⟨hread', -⟩ := Decimal.read_finite_iff.mpr hwrites
    rw [hread] at hread'
    cases hread'

/-- A value stands for one thing. -/
theorem Denotes.unique {text : List Char} {p q : Parameter} (hp : Denotes text p)
    (hq : Denotes text q) : p = q := by
  cases p with
  | number x =>
    obtain ⟨bare, hbare, hx⟩ := hp
    cases q with
    | number y =>
      obtain ⟨bare', hbare', hy⟩ := hq
      obtain rfl : bare = bare' :=
        (isWithoutPercent_iff.mp hbare).symm.trans (isWithoutPercent_iff.mp hbare')
      have hread := (Decimal.read_finite_iff.mpr hx).1
      rw [(Decimal.read_finite_iff.mpr hy).1] at hread
      rw [Except.ok.inj hread]
    | text s => exact absurd hx (hq.2 bare x hbare)
  | text s =>
    cases q with
    | number y =>
      obtain ⟨bare, hbare, hy⟩ := hq
      exact absurd hy (hp.2 bare y hbare)
    | text s' => rw [hp.1, hq.1]

/-- A value is read as what it stands for. -/
theorem parse_eq_iff {text : List Char} {p : Parameter} : parse text = p ↔ Denotes text p := by
  constructor
  · rintro rfl
    exact denotes_parse text
  · intro h
    exact (denotes_parse text).unique h

end Parameter

namespace Action

/-! ## Entries -/

/-- The entries between the commas of a text, without the blanks around them; blank ones do not
count. -/
def argumentEntries (text : List Char) : List (List Char) :=
  ((text.splitOn ',').map trim).filter (· ≠ [])

/-- Entries stand without blanks around them and are not empty. -/
theorem of_mem_argumentEntries {text entry : List Char} (h : entry ∈ argumentEntries text) :
    entry ≠ [] ∧ trim entry = entry := by
  obtain ⟨hmem, hne⟩ := List.mem_filter.mp h
  obtain ⟨piece, -, rfl⟩ := List.mem_map.mp hmem
  exact ⟨of_decide_eq_true hne, trim_trim piece⟩

/-- An entry is cut at its first equality sign, and at the second one if there is one. -/
structure IsCut (front middle tail entry : List Char) : Prop where
  notMem_front : '=' ∉ front
  notMem_middle : '=' ∉ middle
  tail_eq : tail = [] ∨ ∃ after, tail = '=' :: after
  entry_eq : entry = front ++ '=' :: (middle ++ tail)

/-- An entry is a pair of a name, which is not empty, and a value. The name stands in front of the
first equality sign, and the value goes on to the second one or to the end. -/
def IsPair (entry : List Char) (key : String) (value : List Char) : Prop :=
  ∃ front middle tail, IsCut front middle tail entry ∧ trim front = key.toList ∧ key ≠ "" ∧
    trim middle = value

/-- What is cut has an equality sign. -/
theorem IsCut.mem {front middle tail entry : List Char} (h : IsCut front middle tail entry) :
    '=' ∈ entry := by
  rw [h.entry_eq]
  exact List.mem_append_right front List.mem_cons_self

theorem IsPair.mem {entry value : List Char} {key : String} (h : IsPair entry key value) :
    '=' ∈ entry := by
  obtain ⟨front, middle, tail, hcut, -⟩ := h
  exact hcut.mem

/-- An entry with an equality sign can be cut. -/
theorem exists_isCut {entry : List Char} (h : '=' ∈ entry) :
    ∃ front middle tail, IsCut front middle tail entry := by
  obtain ⟨front, rest, rfl, hfront⟩ := List.eq_append_cons_of_mem h
  by_cases hrest : '=' ∈ rest
  · obtain ⟨middle, after, rfl, hmiddle⟩ := List.eq_append_cons_of_mem hrest
    exact ⟨front, middle, '=' :: after, hfront, hmiddle, Or.inr ⟨after, rfl⟩, rfl⟩
  · exact ⟨front, rest, [], hfront, hrest, Or.inl rfl, by rw [List.append_nil]⟩

/-! ## Reading an entry -/

/-- How an entry is read that is cut at its equality signs. -/
theorem IsCut.parse_eq {front middle tail entry : List Char} (h : IsCut front middle tail entry)
    (htrim : trim entry = entry) : Entry.parse entry =
      if (trim front).isEmpty then .none else .pair (trim front) (trim middle) := by
  obtain ⟨more, hmore⟩ : ∃ more, (middle ++ tail).splitOn '=' = middle :: more := by
    rcases h.tail_eq with rfl | ⟨after, rfl⟩
    · rw [List.append_nil, List.splitOn_eq_singleton h.notMem_middle]
      exact ⟨[], rfl⟩
    · rw [List.splitOn_append_cons_self_of_not_mem h.notMem_middle]
      exact ⟨_, rfl⟩
  have hpieces : entry.splitOn '=' = front :: middle :: more := by
    rw [h.entry_eq, List.splitOn_append_cons_self_of_not_mem h.notMem_front, hmore]
  have hne : entry.isEmpty = false :=
    List.isEmpty_eq_false_iff.mpr (List.ne_nil_of_mem h.mem)
  unfold Entry.parse
  simp only [htrim, hne, splitOn_eq, hpieces]
  rfl

/-- How an entry without an equality sign is read. -/
theorem Entry.parse_of_notMem {entry : List Char} (hne : entry ≠ []) (htrim : trim entry = entry)
    (h : '=' ∉ entry) : Entry.parse entry = .positional entry := by
  have hempty : entry.isEmpty = false := List.isEmpty_eq_false_iff.mpr hne
  unfold Entry.parse
  simp only [htrim, hempty, splitOn_eq, List.splitOn_eq_singleton h]
  rfl

/-! ## What an entry sets -/

/-- The value that an entry gives to a parameter by its name. -/
def Entry.valueFor (key : String) : Entry → Option (List Char)
  | .pair name value => if String.ofList name = key then some value else Option.none
  | .none | .positional _ => Option.none

theorem Entry.valueFor_pair (key : String) (name value : List Char) :
    (pair name value).valueFor key = if String.ofList name = key then some value else Option.none :=
  rfl

/-- The token that an entry gives without a name. -/
def Entry.token : Entry → Option (List Char)
  | .positional token => some token
  | .none | .pair _ _ => Option.none

/-- A pair gives its value to the parameter that it names, and no other entry does. -/
theorem Entry.valueFor_parse_eq_some_iff {entry value : List Char} {key : String}
    (hne : entry ≠ []) (htrim : trim entry = entry) :
    (Entry.parse entry).valueFor key = some value ↔ IsPair entry key value := by
  constructor
  · intro h
    by_cases hpair : '=' ∈ entry
    · obtain ⟨front, middle, tail, hcut⟩ := exists_isCut hpair
      rw [hcut.parse_eq htrim] at h
      split_ifs at h with hempty
      · cases h
      · rw [valueFor_pair] at h
        split_ifs at h with hkey
        have hname : trim front = key.toList := by rw [← hkey, String.toList_ofList]
        refine ⟨front, middle, tail, hcut, hname, ?_, Option.some.inj h⟩
        rintro rfl
        exact hempty (List.isEmpty_iff.mpr hname)
    · rw [parse_of_notMem hne htrim hpair] at h
      cases h
  · rintro ⟨front, middle, tail, hcut, hkey, hnamed, rfl⟩
    have hempty : (trim front).isEmpty = false := by
      rw [List.isEmpty_eq_false_iff, hkey]
      exact String.toList_eq_nil_iff.not.mpr hnamed
    rw [hcut.parse_eq htrim, hempty, if_neg Bool.false_ne_true, valueFor_pair, hkey,
      String.ofList_toList]
    exact if_pos rfl

/-- An entry gives a parameter no value exactly if it is no pair that names it. -/
theorem Entry.valueFor_parse_eq_none_iff {entry : List Char} {key : String} (hne : entry ≠ [])
    (htrim : trim entry = entry) :
    (Entry.parse entry).valueFor key = Option.none ↔ ∀ value, ¬ IsPair entry key value := by
  rw [Option.eq_none_iff_forall_ne_some]
  exact forall_congr' fun value => (valueFor_parse_eq_some_iff hne htrim).not

/-- An entry is one pair. -/
theorem IsPair.unique {entry value value' : List Char} {key key' : String} (hne : entry ≠ [])
    (htrim : trim entry = entry) (h : IsPair entry key value) (h' : IsPair entry key' value') :
    key = key' ∧ value = value' := by
  rw [← Entry.valueFor_parse_eq_some_iff hne htrim] at h h'
  cases hentry : Entry.parse entry with
  | none =>
    rw [hentry] at h
    cases h
  | positional token =>
    rw [hentry] at h
    cases h
  | pair name written =>
    rw [hentry, Entry.valueFor_pair] at h h'
    split_ifs at h with hkey
    split_ifs at h' with hkey'
    exact ⟨hkey.symm.trans hkey', (Option.some.inj h).symm.trans (Option.some.inj h')⟩

/-- An entry without an equality sign is a token, and no other entry is. -/
theorem Entry.token_parse {entry : List Char} (hne : entry ≠ []) (htrim : trim entry = entry) :
    (Entry.parse entry).token = if '=' ∈ entry then Option.none else some entry := by
  by_cases hpair : '=' ∈ entry
  · obtain ⟨front, middle, tail, hcut⟩ := exists_isCut hpair
    rw [hcut.parse_eq htrim, if_pos hpair]
    split_ifs <;> rfl
  · rw [parse_of_notMem hne htrim hpair, if_neg hpair]
    rfl

/-- What an entry without a name gives to the parameter of the given name. -/
def Entry.tokenFor (key : String) (e : Entry) : Option Parameter :=
  if key = tokenName then e.token.map fun token => .text (String.ofList token) else Option.none

theorem Entry.tokenFor_parse {entry : List Char} (key : String) (hne : entry ≠ [])
    (htrim : trim entry = entry) : (Entry.parse entry).tokenFor key =
      if key = tokenName ∧ '=' ∉ entry then some (.text (String.ofList entry)) else Option.none := by
  rw [tokenFor, token_parse hne htrim]
  by_cases hkey : key = tokenName
  · by_cases hpair : '=' ∈ entry
    · rw [if_pos hkey, if_pos hpair, if_neg fun h => h.2 hpair]
      rfl
    · rw [if_pos hkey, if_neg hpair, if_pos ⟨hkey, hpair⟩]
      rfl
  · rw [if_neg hkey, if_neg fun h => hkey h.1]

theorem Entry.tokenFor_eq_none {key : String} {e : Entry} (h : e.token = Option.none) :
    e.tokenFor key = Option.none := by
  unfold tokenFor
  rw [h, Option.map_none, ite_self]

end Action

end TradingRules
