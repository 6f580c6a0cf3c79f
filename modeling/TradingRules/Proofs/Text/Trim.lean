/-
# Blanks around a text

Trimming is characterised by what it leaves: a text is some blanks, the trimmed text and some blanks,
and the trimmed text neither begins nor ends with a blank. Everything else about trimming follows
from this, since a text is such a sandwich in one way only.
-/
import Mathlib.Data.List.DropRight
import TradingRules.Text.Blank

namespace TradingRules.Text

/-- A text of blanks alone. -/
def AllBlank (text : List Char) : Prop := ∀ c ∈ text, isBlank c = true

instance : DecidablePred AllBlank :=
  fun text => List.decidableBAll (isBlank · = true) text

/-- A text that neither begins nor ends with a blank. -/
def IsTrimmed (text : List Char) : Prop :=
  (∀ c, text.head? = some c → isBlank c = false) ∧
    ∀ c, text.getLast? = some c → isBlank c = false

theorem AllBlank.nil : AllBlank [] := fun _ h => absurd h List.not_mem_nil

theorem AllBlank.append {front back : List Char} (hfront : AllBlank front) (hback : AllBlank back) :
    AllBlank (front ++ back) := by
  intro c hc
  rcases List.mem_append.mp hc with h | h
  · exact hfront c h
  · exact hback c h

/-- What is in front of the blanks in front is dropped by nothing. -/
theorem trimStart_eq_self {text : List Char} (h : ∀ c, text.head? = some c → isBlank c = false) :
    trimStart text = text := by
  cases text with
  | nil => rfl
  | cons c rest =>
    rw [trimStart, List.dropWhile_cons_of_neg]
    rw [h c rfl]
    exact Bool.false_ne_true

/-- Blanks in front are dropped. -/
theorem trimStart_append {ws text : List Char} (h : AllBlank ws) :
    trimStart (ws ++ text) = trimStart text :=
  List.dropWhile_append_of_pos h

/-- A text is some blanks and what is left without them. -/
theorem exists_trimStart (text : List Char) :
    ∃ ws, AllBlank ws ∧ text = ws ++ trimStart text :=
  ⟨text.takeWhile isBlank, fun _ hc => List.mem_takeWhile_imp hc,
    List.takeWhile_append_dropWhile.symm⟩

/-- Without the blanks in front a text does not begin with one. -/
theorem head?_trimStart (text : List Char) (c : Char) (h : (trimStart text).head? = some c) :
    isBlank c = false := by
  have := List.head?_dropWhile_not isBlank text
  rw [trimStart] at h
  rw [h] at this
  simpa using this

theorem trimEnd_eq_reverse (text : List Char) : trimEnd text = (trimStart text.reverse).reverse := rfl

/-- A text that ends with no blank loses nothing behind it. -/
theorem trimEnd_eq_self {text : List Char} (h : ∀ c, text.getLast? = some c → isBlank c = false) :
    trimEnd text = text := by
  rw [trimEnd_eq_reverse, trimStart_eq_self, List.reverse_reverse]
  intro c hc
  rw [List.head?_reverse] at hc
  exact h c hc

/-- Blanks behind a text are dropped. -/
theorem trimEnd_append {ws text : List Char} (h : AllBlank ws) :
    trimEnd (text ++ ws) = trimEnd text := by
  rw [trimEnd_eq_reverse, List.reverse_append, trimStart_append, ← trimEnd_eq_reverse]
  intro c hc
  exact h c (List.mem_reverse.mp hc)

/-- A text is what is left without the blanks behind it, and these blanks. -/
theorem exists_trimEnd (text : List Char) : ∃ ws, AllBlank ws ∧ text = trimEnd text ++ ws := by
  obtain ⟨ws, hws, htext⟩ := exists_trimStart text.reverse
  refine ⟨ws.reverse, fun c hc => hws c (List.mem_reverse.mp hc), ?_⟩
  rw [trimEnd_eq_reverse, ← List.reverse_append, ← htext, List.reverse_reverse]

/-- Without the blanks behind it a text does not end with one. -/
theorem getLast?_trimEnd {text : List Char} (c : Char) (h : (trimEnd text).getLast? = some c) :
    isBlank c = false := by
  rw [trimEnd_eq_reverse, List.getLast?_reverse] at h
  exact head?_trimStart _ c h

/-- A character that is no blank stands in front of the blanks behind a text. -/
theorem exists_of_append_allBlank {text ws front rest : List Char} {c : Char} (hws : AllBlank ws)
    (hc : isBlank c = false) (h : text ++ ws = front ++ c :: rest) :
    ∃ tail, text = front ++ c :: tail := by
  have hnot : c ∉ ws := by
    intro hmem
    rw [hws c hmem] at hc
    cases hc
  rcases List.append_eq_append_iff.mp h with ⟨a, -, hrest⟩ | ⟨a, ha, hrest⟩
  · exact absurd (hrest ▸ List.mem_append_right a List.mem_cons_self) hnot
  · cases a with
    | nil =>
      rw [List.nil_append] at hrest
      exact absurd (hrest ▸ List.mem_cons_self) hnot
    | cons c' a =>
      cases hrest
      exact ⟨a, ha⟩

/-! ## Sandwiches -/

/-- A trimmed text between blanks is what trimming leaves. -/
theorem trim_eq_of_isTrimmed {front text back : List Char} (hfront : AllBlank front)
    (hback : AllBlank back) (htext : IsTrimmed text) : trim (front ++ text ++ back) = text := by
  rw [trim, List.append_assoc, trimStart_append hfront]
  by_cases hnil : text = []
  · subst hnil
    rw [List.nil_append]
    have : trimStart back = [] := by
      rw [← List.append_nil back, trimStart_append hback]
      rfl
    rw [this]
    rfl
  · rw [trimStart_eq_self, trimEnd_append hback, trimEnd_eq_self htext.2]
    intro c hc
    rw [List.head?_append_of_ne_nil _ hnil] at hc
    exact htext.1 c hc

/-- What trimming leaves is trimmed. -/
theorem isTrimmed_trim (text : List Char) : IsTrimmed (trim text) := by
  refine ⟨?_, fun c hc => getLast?_trimEnd c hc⟩
  intro c hc
  obtain ⟨ws, -, hws⟩ := exists_trimEnd (trimStart text)
  refine head?_trimStart text c ?_
  rw [hws, List.head?_append]
  show ((trim text).head?.or _) = _
  rw [hc]
  rfl

/-- A text is its trimmed text between blanks. -/
theorem exists_trim (text : List Char) :
    ∃ front back, AllBlank front ∧ AllBlank back ∧ text = front ++ trim text ++ back := by
  obtain ⟨front, hfront, htext⟩ := exists_trimStart text
  obtain ⟨back, hback, hrest⟩ := exists_trimEnd (trimStart text)
  refine ⟨front, back, hfront, hback, ?_⟩
  rw [trim, List.append_assoc, ← hrest]
  exact htext

theorem trim_eq_self {text : List Char} (h : IsTrimmed text) : trim text = text := by
  simpa using trim_eq_of_isTrimmed AllBlank.nil AllBlank.nil h

/-- Trimming a second time changes nothing. -/
@[simp] theorem trim_trim (text : List Char) : trim (trim text) = trim text :=
  trim_eq_self (isTrimmed_trim text)

/-- Blanks around a text do not matter to trimming. -/
theorem trim_append_append (text : List Char) {front back : List Char} (hfront : AllBlank front)
    (hback : AllBlank back) : trim (front ++ text ++ back) = trim text := by
  obtain ⟨front', back', hfront', hback', htext⟩ := exists_trim text
  have hsplit : front ++ text ++ back = (front ++ front') ++ trim text ++ (back' ++ back) := by
    conv_lhs => rw [htext]
    simp only [List.append_assoc]
  rw [hsplit]
  exact trim_eq_of_isTrimmed (hfront.append hfront') (hback'.append hback) (isTrimmed_trim text)

/-- Nothing is left exactly of a blank text. -/
theorem trim_eq_nil_iff {text : List Char} : trim text = [] ↔ AllBlank text := by
  constructor
  · intro h
    obtain ⟨front, back, hfront, hback, htext⟩ := exists_trim text
    rw [htext, h, List.append_nil]
    exact hfront.append hback
  · intro h
    have := trim_append_append [] h AllBlank.nil
    rw [List.append_nil, List.append_nil] at this
    exact this

@[simp] theorem trim_trimStart (text : List Char) : trim (trimStart text) = trim text := by
  obtain ⟨ws, hws, htext⟩ := exists_trimStart text
  have := trim_append_append (trimStart text) hws AllBlank.nil
  rw [List.append_nil, ← htext] at this
  exact this.symm

@[simp] theorem trim_trimEnd (text : List Char) : trim (trimEnd text) = trim text := by
  obtain ⟨ws, hws, htext⟩ := exists_trimEnd text
  have := trim_append_append (trimEnd text) AllBlank.nil hws
  rw [List.nil_append, ← htext] at this
  exact this.symm

/-- Trimming acts on the two ends of a text, if there is more than blanks in both of them. -/
theorem trim_append_of_not_allBlank {left middle right : List Char} (hleft : ¬ AllBlank left)
    (hright : ¬ AllBlank right) :
    trim (left ++ middle ++ right) = trimStart left ++ middle ++ trimEnd right := by
  obtain ⟨front, hfront, hl⟩ := exists_trimStart left
  obtain ⟨back, hback, hr⟩ := exists_trimEnd right
  have hleft' : trimStart left ≠ [] := by
    intro h
    rw [h, List.append_nil] at hl
    exact hleft (hl ▸ hfront)
  have hright' : trimEnd right ≠ [] := by
    intro h
    rw [h, List.nil_append] at hr
    exact hright (hr ▸ hback)
  have hsplit : left ++ middle ++ right =
      front ++ (trimStart left ++ middle ++ trimEnd right) ++ back := by
    conv_lhs => rw [hl, hr]
    simp only [List.append_assoc]
  rw [hsplit]
  refine trim_eq_of_isTrimmed hfront hback ⟨fun c hc => ?_, fun c hc => ?_⟩
  · rw [List.append_assoc, List.head?_append_of_ne_nil _ hleft'] at hc
    exact head?_trimStart left c hc
  · rw [List.getLast?_append_of_ne_nil _ hright'] at hc
    exact getLast?_trimEnd c hc

/-- A text that begins with no blank begins the same after trimming. -/
theorem head?_trim {text : List Char} {c : Char} (hhead : text.head? = some c)
    (hc : isBlank c = false) : (trim text).head? = some c := by
  obtain ⟨back, hback, htext⟩ := exists_trimEnd text
  have htrim : trim text = trimEnd text := by
    rw [trim, trimStart_eq_self]
    intro c' hc'
    rw [hhead] at hc'
    cases hc'
    exact hc
  rw [htrim]
  cases hrest : trimEnd text with
  | nil =>
    rw [hrest, List.nil_append] at htext
    have := hback c (List.mem_of_head? (htext ▸ hhead))
    rw [hc] at this
    cases this
  | cons c' rest =>
    rw [htext, hrest] at hhead
    exact hhead

/-- A text that ends with no blank ends the same after trimming. -/
theorem getLast?_trim {text : List Char} {c : Char} (hlast : text.getLast? = some c)
    (hc : isBlank c = false) : (trim text).getLast? = some c := by
  obtain ⟨front, hfront, htext⟩ := exists_trimStart text
  have htrim : trim text = trimStart text := by
    rw [trim, trimEnd_eq_self]
    intro c' hc'
    have : text.getLast? = some c' := by
      rw [htext]
      exact List.mem_getLast?_append_of_mem_getLast? hc'
    rw [hlast] at this
    cases this
    exact hc
  rw [htrim]
  cases hrest : trimStart text with
  | nil =>
    rw [hrest, List.append_nil] at htext
    have := hfront c (List.mem_of_getLast? (htext ▸ hlast))
    rw [hc] at this
    cases this
  | cons c' rest =>
    rw [htext, hrest, List.getLast?_append_of_ne_nil _ (List.cons_ne_nil _ _)] at hlast
    exact hlast

/-- Trimming takes nothing off a text but blanks. -/
theorem mem_trim_iff {c : Char} (hc : isBlank c = false) {text : List Char} :
    c ∈ trim text ↔ c ∈ text := by
  obtain ⟨front, back, hfront, hback, htext⟩ := exists_trim text
  have hnot {ws : List Char} (hws : AllBlank ws) : c ∉ ws := by
    intro hmem
    rw [hws c hmem] at hc
    cases hc
  conv_rhs => rw [htext]
  simp [hnot hfront, hnot hback]

end TradingRules.Text
