/-
# What a line of settings says

A line is read by what is left of it without its comment. It says nothing, opens a section, or sets a
key with or without a value; each of these is compared with the shape of the line.
-/
import TradingRules.Proofs.Text.Scan
import TradingRules.Settings.Line

namespace TradingRules.Settings

open Text

/-! ## Names between brackets -/

/-- The text up to the last closing bracket is followed by that bracket and by none. -/
theorem beforeLastBracket_eq_some_iff {text name : List Char} :
    beforeLastBracket text = some name ↔ ∃ after, text = name ++ ']' :: after ∧ ']' ∉ after := by
  have hsplit : text.reverse = text.reverse.takeWhile (· ≠ ']') ++
      text.reverse.dropWhile (· ≠ ']') := List.takeWhile_append_dropWhile.symm
  unfold beforeLastBracket
  constructor
  · intro h
    split at h
    · cases h
    · rename_i c before hdrop
      cases h
      have hc : c = ']' := by
        have hhead := List.head?_dropWhile_not (· ≠ ']') text.reverse
        rw [hdrop] at hhead
        simpa using hhead
      rw [hdrop, hc] at hsplit
      refine ⟨(text.reverse.takeWhile (· ≠ ']')).reverse, ?_, ?_⟩
      · have hreverse := congrArg List.reverse hsplit
        rw [List.reverse_reverse, List.reverse_append, List.reverse_cons, List.append_assoc,
          List.singleton_append] at hreverse
        exact hreverse
      · intro hmem
        have hne := List.mem_takeWhile_imp (List.mem_reverse.mp hmem)
        simp at hne
  · rintro ⟨after, rfl, hafter⟩
    have hpass : ∀ c ∈ after.reverse, decide (c ≠ ']') = true := by
      intro c hc
      rw [decide_eq_true_eq]
      rintro rfl
      exact hafter (List.mem_reverse.mp hc)
    have hdrop : (name ++ ']' :: after).reverse.dropWhile (· ≠ ']') = ']' :: name.reverse := by
      rw [List.reverse_append, List.reverse_cons, List.append_assoc,
        List.dropWhile_append_of_pos hpass]
      rfl
    rw [hdrop]
    show some name.reverse.reverse = some name
    rw [List.reverse_reverse]

/-! ## Lines -/

/-- What a line says: it opens a section by a name between brackets, of which the last closing one
counts; it sets a key to what stands behind the first delimiter; or it holds a key alone, without
a value. -/
inductive Says (line : List Char) : Line → Prop
  | opening {name after : List Char} (h : content line = '[' :: (name ++ ']' :: after))
      (hlast : ']' ∉ after) : Says line (.section (fold name))
  | keyWithValue {key value : List Char} {delimiter : Char}
      (h : content line = key ++ delimiter :: value) (hbracket : key.head? ≠ some '[')
      (hkey : ¬ AllBlank key) (hfirst : ∀ c ∈ key, isDelimiter c = false)
      (hdelimiter : isDelimiter delimiter = true) :
      Says line (.setting (fold key) (some (String.ofList (trim value))))
  | keyAlone {key : List Char} (h : content line = key) (hbracket : key.head? ≠ some '[')
      (hkey : key ≠ []) (hnone : ∀ c ∈ key, isDelimiter c = false) :
      Says line (.setting (fold key) none)

/-- A line that begins with a bracket opens a section or is faulty. -/
theorem Line.read_of_bracket {number : Nat} {line rest : List Char}
    (h : content line = '[' :: rest) :
    Line.read number line =
      match beforeLastBracket rest with
      | some name => .ok (some (.section (fold name)))
      | none => .error (.unclosedSection number) := by
  rw [Line.read, h]
  rfl

/-- A line that begins with no bracket sets a key or is faulty. -/
theorem Line.read_of_not_bracket {number : Nat} {line : List Char} (hne : content line ≠ [])
    (hbracket : (content line).head? ≠ some '[') :
    Line.read number line =
      match takeUntil isDelimiter (content line) with
      | none => .ok (some (.setting (fold (content line)) none))
      | some (key, value) =>
        if (trim key).isEmpty then .error (.emptyKey number)
        else .ok (some (.setting (fold key) (some (String.ofList (trim (value.drop 1)))))) := by
  rw [Line.read]
  split
  · rename_i hnil
    exact absurd hnil hne
  · rename_i rest hrest
    rw [hrest] at hbracket
    exact absurd rfl hbracket
  · rfl

/-- A line says what it is read as. -/
theorem Says.of_read {number : Nat} {line : List Char} {l : Line}
    (h : Line.read number line = .ok (some l)) : Says line l := by
  by_cases hne : content line = []
  · rw [Line.read, hne] at h
    cases h
  by_cases hbracket : (content line).head? = some '['
  · obtain ⟨rest, hrest⟩ := List.head?_eq_some_iff.mp hbracket
    rw [Line.read_of_bracket hrest] at h
    split at h
    · rename_i name hname
      cases h
      obtain ⟨after, rfl, hafter⟩ := beforeLastBracket_eq_some_iff.mp hname
      exact .opening hrest hafter
    · cases h
  · rw [Line.read_of_not_bracket hne hbracket] at h
    split at h
    · rename_i hnone
      cases h
      exact .keyAlone rfl hbracket hne (takeUntil_eq_none_iff.mp hnone)
    · rename_i key value hcut
      obtain ⟨hsplit, hfirst, delimiter, value', rfl, hdelimiter⟩ :=
        takeUntil_eq_some_iff.mp hcut
      split_ifs at h with hempty
      cases h
      rw [List.isEmpty_iff, trim_eq_nil_iff] at hempty
      -- the key begins as the line does
      refine .keyWithValue hsplit ?_ hempty hfirst hdelimiter
      intro hhead
      rw [hsplit, List.head?_append, hhead] at hbracket
      exact hbracket rfl

/-- A line is read as what it says. -/
theorem Says.read_eq {number : Nat} {line : List Char} {l : Line} (h : Says line l) :
    Line.read number line = .ok (some l) := by
  cases h with
  | @opening name after h hlast =>
    rw [Line.read_of_bracket h, beforeLastBracket_eq_some_iff.mpr ⟨after, rfl, hlast⟩]
  | @keyWithValue key value delimiter h hbracket hkey hfirst hdelimiter =>
    have hne : key ≠ [] := by
      rintro rfl
      exact hkey AllBlank.nil
    have hcut : takeUntil isDelimiter (content line) = some (key, delimiter :: value) :=
      takeUntil_eq_some_iff.mpr ⟨h, hfirst, delimiter, value, rfl, hdelimiter⟩
    rw [Line.read_of_not_bracket, hcut]
    · show (if (trim key).isEmpty then _ else _) = _
      rw [if_neg]
      · rfl
      · rwa [List.isEmpty_iff, trim_eq_nil_iff]
    · rw [h]
      exact List.append_ne_nil_of_left_ne_nil hne _
    · rwa [h, List.head?_append_of_ne_nil _ hne]
  | @keyAlone key h hbracket hkey hnone =>
    subst h
    rw [Line.read_of_not_bracket hkey hbracket, takeUntil_eq_none_iff.mpr hnone]

/-- A line says something exactly if it is read so. -/
theorem Line.read_eq_ok_some_iff {number : Nat} {line : List Char} {l : Line} :
    Line.read number line = .ok (some l) ↔ Says line l :=
  ⟨Says.of_read, Says.read_eq⟩

end TradingRules.Settings
