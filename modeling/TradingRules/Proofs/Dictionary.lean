/-
# What dictionaries hold

Under a key stands the value that was put there last. A dictionary is determined by its entries, and
made of them when they are put one after the other.
-/
import Mathlib.Data.List.Sort
import TradingRules.Dictionary

namespace TradingRules.Dictionary

variable {α : Type}

/-! ## Looking up -/

/-- A key has the value that was put last under it; the other keys keep theirs. -/
theorem lookup_putEntry (key name : String) (value : α)
    (entries : List (String × α)) :
    (putEntry key value entries).lookup name =
      if name = key then some value else entries.lookup name := by
  induction entries with
  | nil =>
    rw [putEntry, List.lookup_cons, List.lookup_nil]
    by_cases h : name = key
    · rw [if_pos h, beq_iff_eq.mpr h]
    · rw [if_neg h, beq_eq_false_iff_ne.mpr h]
  | cons e rest ih =>
    obtain ⟨key', value'⟩ := e
    rw [putEntry]
    by_cases h : name = key
    · subst h
      rw [if_pos rfl]
      split
      · rw [List.lookup_cons_self]
      · split
        · rw [List.lookup_cons_self]
        · rename_i hne
          rw [List.lookup_cons, beq_eq_false_iff_ne.mpr hne, ih, if_pos rfl]
    · rw [if_neg h] at ih ⊢
      split
      · rw [List.lookup_cons, beq_eq_false_iff_ne.mpr h]
      · split
        · rename_i heq
          subst heq
          rw [List.lookup_cons, List.lookup_cons, beq_eq_false_iff_ne.mpr h]
        · rw [List.lookup_cons, List.lookup_cons, ih]

/-- The value of a key in a dictionary with one entry set. -/
theorem get?_insert (d : Dictionary α) (key name : String) (value : α) :
    (d.insert key value).get? name = if name = key then some value else d.get? name :=
  lookup_putEntry key name value d.entries

/-- The entries of a dictionary are what its keys have. -/
theorem mem_entries_iff {d : Dictionary α} {key : String} {value : α} :
    (key, value) ∈ d.entries ↔ d.get? key = some value := by
  unfold get?
  rw [List.lookup_eq_some_iff]
  constructor
  · intro hmem
    obtain ⟨before, after, hentries⟩ := List.append_of_mem hmem
    refine ⟨before, after, hentries, ?_⟩
    intro e he
    have hascending := d.ascending
    rw [hentries, List.pairwise_append] at hascending
    have hlt : e.1 < key := hascending.2.2 e he _ List.mem_cons_self
    exact bne_iff_ne.mpr (Std.ne_of_lt hlt).symm
  · rintro ⟨before, after, hentries, -⟩
    rw [hentries]
    exact List.mem_append_right before List.mem_cons_self

/-! ## Dictionaries of ascending entries -/

/-- An entry behind all others is put at their end. -/
theorem putEntry_of_forall_lt {key : String} (value : α) {entries : List (String × α)}
    (h : ∀ e ∈ entries, e.1 < key) : putEntry key value entries = entries ++ [(key, value)] := by
  induction entries with
  | nil => rfl
  | cons e rest ih =>
    obtain ⟨hfirst, hrest⟩ := List.forall_mem_cons.mp h
    have hne : key ≠ e.1 := fun heq => String.lt_irrefl _ (heq ▸ hfirst)
    rw [putEntry, if_neg (String.lt_asymm hfirst), if_neg hne, ih hrest, List.cons_append]

/-- Ascending entries behind those of a dictionary are put at their end. -/
theorem entries_foldl_insert {entries : List (String × α)} {d : Dictionary α}
    (h : (d.entries ++ entries).Pairwise (fun a b => a.1 < b.1)) :
    (entries.foldl (fun d e => d.insert e.1 e.2) d).entries = d.entries ++ entries := by
  induction entries generalizing d with
  | nil => rw [List.foldl_nil, List.append_nil]
  | cons e rest ih =>
    have hlast : ∀ e' ∈ d.entries, e'.1 < e.1 :=
      fun e' he' => (List.pairwise_append.mp h).2.2 e' he' e List.mem_cons_self
    have hinsert : (d.insert e.1 e.2).entries = d.entries ++ [e] := putEntry_of_forall_lt e.2 hlast
    have hall : d.entries ++ e :: rest = (d.insert e.1 e.2).entries ++ rest := by
      rw [hinsert, List.append_assoc, List.singleton_append]
    rw [List.foldl_cons, ih (hall ▸ h), hall]

/-- A dictionary of ascending entries has these entries. -/
theorem entries_ofList {entries : List (String × α)}
    (h : entries.Pairwise (fun a b => a.1 < b.1)) : (ofList entries).entries = entries := by
  rw [ofList, entries_foldl_insert (by rwa [empty, List.nil_append]), empty, List.nil_append]

/-- A dictionary is determined by its entries. -/
theorem ext {d d' : Dictionary α} (h : d.entries = d'.entries) : d = d' := by
  cases d
  cases d'
  cases h
  rfl

/-- A dictionary is determined by what its keys have. -/
theorem ext_get? {d d' : Dictionary α} (h : ∀ key, d.get? key = d'.get? key) : d = d' := by
  have hirrefl : Std.Irrefl (fun a b : String × α => a.1 < b.1) := ⟨fun a => String.lt_irrefl a.1⟩
  have hantisymm : Std.Antisymm (fun a b : String × α => a.1 < b.1) :=
    ⟨fun a b hab hba => absurd hab (String.lt_asymm hba)⟩
  apply ext
  refine List.Pairwise.eq_of_mem_iff d.ascending d'.ascending ?_
  intro e
  rw [mem_entries_iff, mem_entries_iff, h]

/-- A dictionary is made of its entries. -/
theorem ofList_entries (d : Dictionary α) : ofList d.entries = d :=
  ext (entries_ofList d.ascending)

/-- A dictionary has entries exactly if some key has a value. -/
theorem entries_ne_nil_iff {d : Dictionary α} : d.entries ≠ [] ↔ ∃ key, d.contains key = true := by
  constructor
  · intro h
    obtain ⟨⟨key, value⟩, rest, hentries⟩ := List.exists_cons_of_ne_nil h
    have hget : d.get? key = some value := mem_entries_iff.mp (by simp [hentries])
    exact ⟨key, by rw [contains, hget]; rfl⟩
  · rintro ⟨key, hkey⟩ hnil
    rw [contains, get?, hnil] at hkey
    cases hkey

end TradingRules.Dictionary
