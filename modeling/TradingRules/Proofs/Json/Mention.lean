/-
# What a compact text mentions

The texts of a value are its strings and the names of its members, at any depth. A word in letters
stands in the compact text of a value exactly if it stands in one of its texts as that is written,
with the escapes: it contains none of the marks that a text, an item or a member begins or ends
with, and it is neither part of a constant nor of a number.
-/
import Mathlib.Data.List.Infix
import TradingRules.Json.Print
import TradingRules.Proofs.Json.Numeral
import TradingRules.Text.Search

namespace TradingRules

/-! ## Words around a mark -/

namespace Text

/-- A word without a mark that begins a text does not reach beyond the mark. -/
theorem prefix_append_cons_iff {word : List Char} {mark : Char} (h : mark ∉ word)
    (front back : List Char) :
    word <+: front ++ mark :: back ↔ word <+: front := by
  constructor
  · intro hword
    rcases Nat.le_or_le word.length front.length with hshort | hlong
    · exact List.prefix_of_prefix_length_le hword (List.prefix_append _ _) hshort
    · -- a longer word would begin with the front and go on with the mark
      obtain ⟨rest, rfl⟩ := List.prefix_of_prefix_length_le (List.prefix_append _ _) hword hlong
      rw [List.prefix_append_right_inj] at hword
      cases rest with
      | nil => exact by rw [List.append_nil]
      | cons c rest =>
        have hc : c = mark := (List.cons_prefix_cons.mp hword).1
        exact absurd (by simp [hc]) h
  · exact fun hword => hword.trans (List.prefix_append _ _)

/-- A word without a mark stands on one side of it. -/
theorem infix_append_cons_iff {word : List Char} {mark : Char} (h : mark ∉ word)
    (front back : List Char) :
    word <:+: front ++ mark :: back ↔ word <:+: front ∨ word <:+: back := by
  induction front with
  | nil =>
    have hnil := prefix_append_cons_iff h [] back
    rw [List.nil_append] at hnil ⊢
    rw [List.infix_cons_iff, hnil, List.infix_nil, List.prefix_nil]
  | cons c front ih =>
    have hhere := prefix_append_cons_iff h (c :: front) back
    rw [List.cons_append] at hhere ⊢
    rw [List.infix_cons_iff, hhere, ih, List.infix_cons_iff, or_assoc]

/-- The search for a mark in a text. -/
theorem occursIn_iff {mark text : List Char} : occursIn mark text = true ↔ mark <:+: text := by
  induction text with
  | nil => rw [occursIn, List.isEmpty_iff, List.infix_nil]
  | cons c text ih =>
    rw [occursIn, Bool.or_eq_true, List.isPrefixOf_iff_prefix, ih, List.infix_cons_iff]

end Text

namespace Json

/-! ## The texts of a value -/

/-- A text of a value: the value itself, or the name of a member, at any depth. -/
inductive HasText : Json → String → Prop
  | itself (s : String) : HasText (.string s) s
  | item {items : List Json} {item : Json} {s : String} (hmem : item ∈ items)
      (h : HasText item s) : HasText (.array items) s
  | name {members : List (String × Json)} {name : String} {value : Json}
      (hmem : (name, value) ∈ members) : HasText (.object members) name
  | value {members : List (String × Json)} {name : String} {value : Json} {s : String}
      (hmem : (name, value) ∈ members) (h : HasText value s) : HasText (.object members) s

/-- A text as it is written between its quotes. -/
def escaped (s : String) : List Char :=
  s.toList.flatMap escape

/-- A word stands in one of the texts of a value, as that is written. -/
def Mentions (word : List Char) (j : Json) : Prop :=
  ∃ s, j.HasText s ∧ word <:+: escaped s

theorem mentions_string {word : List Char} {s : String} :
    Mentions word (.string s) ↔ word <:+: escaped s := by
  constructor
  · rintro ⟨_, htext, hword⟩
    cases htext
    exact hword
  · exact fun hword => ⟨s, .itself s, hword⟩

theorem mentions_array {word : List Char} {items : List Json} :
    Mentions word (.array items) ↔ ∃ item ∈ items, Mentions word item := by
  constructor
  · rintro ⟨s, htext, hword⟩
    cases htext with
    | item hmem h => exact ⟨_, hmem, s, h, hword⟩
  · rintro ⟨item, hmem, s, htext, hword⟩
    exact ⟨s, .item hmem htext, hword⟩

theorem mentions_object {word : List Char} {members : List (String × Json)} :
    Mentions word (.object members) ↔
      ∃ member ∈ members, word <:+: escaped member.1 ∨ Mentions word member.2 := by
  constructor
  · rintro ⟨s, htext, hword⟩
    cases htext with
    | name hmem => exact ⟨_, hmem, Or.inl hword⟩
    | value hmem h => exact ⟨_, hmem, Or.inr ⟨s, h, hword⟩⟩
  · rintro ⟨⟨name, value⟩, hmem, hword | ⟨s, htext, hword⟩⟩
    · exact ⟨name, .name hmem, hword⟩
    · exact ⟨s, .value hmem htext, hword⟩

/-! ## Words -/

/-- A word of letters and underscores that is neither part of a constant nor, by a letter other
than the one of an exponent, part of a number. -/
structure IsWord (word : List Char) : Prop where
  letters : ∀ c ∈ word, c.isAlpha = true ∨ c = '_'
  not_exponent : ∃ c ∈ word, c.isAlpha = true ∧ c ≠ 'e'
  not_null : ¬ word <:+: "null".toList
  not_true : ¬ word <:+: "true".toList
  not_false : ¬ word <:+: "false".toList

theorem IsWord.not_mem {word : List Char} (h : IsWord word) {mark : Char}
    (hmark : mark.isAlpha = false ∧ mark ≠ '_') : mark ∉ word := by
  intro hmem
  rcases h.letters mark hmem with halpha | rfl
  · rw [hmark.1] at halpha
    cases halpha
  · exact hmark.2 rfl

theorem IsWord.ne_nil {word : List Char} (h : IsWord word) : word ≠ [] := by
  obtain ⟨c, hmem, -⟩ := h.not_exponent
  exact List.ne_nil_of_mem hmem

theorem le_toNat_of_isAlpha {c : Char} (h : c.isAlpha = true) : 65 ≤ c.toNat := by
  rcases Bool.or_eq_true_iff.mp h with hupper | hlower
  · exact UInt32.le_iff_toNat_le.mp (of_decide_eq_true hupper).1
  · have hlow : 97 ≤ c.toNat :=
      UInt32.le_iff_toNat_le.mp (of_decide_eq_true (Bool.and_eq_true_iff.mp hlower).1)
    omega

theorem isDigit_of_isAlpha {c : Char} (h : c.isAlpha = true) : c.isDigit = false := by
  have hletter := le_toNat_of_isAlpha h
  rw [Bool.eq_false_iff]
  intro hdigit
  have hhigh : c.toNat ≤ 57 :=
    UInt32.le_iff_toNat_le.mp (of_decide_eq_true (Bool.and_eq_true_iff.mp hdigit).2)
  omega

/-- Letters are written as they are. -/
theorem escape_of_isAlpha {c : Char} (h : c.isAlpha = true ∨ c = '_') : escape c = [c] := by
  have hcontrol : ¬ c.toNat < 0x20 := by
    rcases h with h | rfl
    · have := le_toNat_of_isAlpha h
      omega
    · decide
  have hne : ∀ mark : Char, mark.isAlpha = false ∧ mark ≠ '_' → c ≠ mark := by
    rintro mark ⟨halpha, hunderscore⟩ rfl
    rcases h with h | h
    · rw [halpha] at h
      cases h
    · exact hunderscore h
  unfold escape
  rw [if_neg (hne '"' (by decide)), if_neg (hne '\\' (by decide)), if_neg (hne '\x08' (by decide)),
    if_neg (hne '\t' (by decide)), if_neg (hne '\n' (by decide)), if_neg (hne '\x0c' (by decide)),
    if_neg (hne '\r' (by decide)), if_neg hcontrol]

/-- A word that stands in a text stands in the written text. -/
theorem IsWord.infix_escaped {word : List Char} (h : IsWord word) {s : String}
    (hs : word <:+: s.toList) : word <:+: escaped s := by
  obtain ⟨front, back, hs⟩ := hs
  have hself : word.flatMap escape = word := by
    rw [List.flatMap_congr fun c hc => escape_of_isAlpha (h.letters c hc), List.flatMap_singleton']
  refine ⟨front.flatMap escape, back.flatMap escape, ?_⟩
  rw [escaped, ← hs, List.flatMap_append, List.flatMap_append, hself]

/-! ## What is no text -/

/-- The characters of a number. -/
theorem mem_text_number {n : Number} {c : Char} (h : c ∈ n.text) :
    c.isDigit = true ∨ c = '-' ∨ c = '+' ∨ c = '.' ∨ c = 'e' := by
  have hwell := n.wellFormed_numeral
  rw [← Number.text_numeral, Numeral.text, List.mem_append, List.mem_append,
    List.mem_append] at h
  rcases h with hsign | hwhole | hfraction | hexponent
  · split at hsign <;> simp_all
  · exact Or.inl (hwell.whole_digits c hwhole)
  · unfold fractionText at hfraction
    split at hfraction
    · cases hfraction
    · rcases List.mem_cons.mp hfraction with rfl | hmem
      · simp
      · exact Or.inl (hwell.fraction_digits c hmem)
  · cases he : n.numeral.exponent with
    | none =>
      rw [he] at hexponent
      cases hexponent
    | some exponent =>
      obtain ⟨negative, digits⟩ := exponent
      rw [he, exponentText] at hexponent
      rcases List.mem_cons.mp hexponent with rfl | hexponent
      · simp
      rcases List.mem_cons.mp hexponent with hsign | hmem
      · cases negative <;> simp [hsign]
      · exact Or.inl ((hwell.exponent_digits negative digits he).2 c hmem)

/-- A word is not part of a number. -/
theorem IsWord.not_infix_number {word : List Char} (h : IsWord word) (n : Number) :
    ¬ word <:+: n.text := by
  intro hoccurs
  obtain ⟨c, hmem, halpha, hne⟩ := h.not_exponent
  rcases mem_text_number (hoccurs.subset hmem) with hdigit | rfl | rfl | rfl | rfl
  · rw [isDigit_of_isAlpha halpha] at hdigit
    cases hdigit
  · exact absurd halpha (by decide)
  · exact absurd halpha (by decide)
  · exact absurd halpha (by decide)
  · exact hne rfl

/-! ## The compact text -/

/-- A text ends, or goes on with a mark that no word contains. -/
def StartsWithMark (text : List Char) : Prop :=
  ∀ c, text.head? = some c → c.isAlpha = false ∧ c ≠ '_'

theorem StartsWithMark.nil : StartsWithMark [] := by
  intro c hc
  cases hc

theorem StartsWithMark.cons {c : Char} (h : c.isAlpha = false ∧ c ≠ '_') (text : List Char) :
    StartsWithMark (c :: text) := by
  intro c' hc
  cases hc
  exact h

theorem startsWithMark_compactItems (items : List Json) {after : List Char}
    (h : StartsWithMark after) : StartsWithMark (compactItems false items after) := by
  cases items with
  | nil => exact h
  | cons item rest => exact StartsWithMark.cons (by decide) _

theorem startsWithMark_compactMembers (members : List (String × Json)) {after : List Char}
    (h : StartsWithMark after) : StartsWithMark (compactMembers false members after) := by
  cases members with
  | nil => exact h
  | cons member rest => exact StartsWithMark.cons (by decide) _

/-- A word stands in front of a mark or behind it. -/
theorem IsWord.infix_cons {word : List Char} (h : IsWord word) {mark : Char}
    (hmark : mark.isAlpha = false ∧ mark ≠ '_') (back : List Char) :
    word <:+: mark :: back ↔ word <:+: back := by
  have hsplit := Text.infix_append_cons_iff (h.not_mem hmark) [] back
  rw [List.nil_append, List.infix_nil] at hsplit
  rw [hsplit, or_iff_right h.ne_nil]

theorem IsWord.infix_append {word : List Char} (h : IsWord word) (front : List Char)
    {back : List Char} (hback : StartsWithMark back) :
    word <:+: front ++ back ↔ word <:+: front ∨ word <:+: back := by
  cases back with
  | nil =>
    rw [List.append_nil, List.infix_nil, or_iff_left h.ne_nil]
  | cons mark back =>
    have hmark := hback mark rfl
    rw [Text.infix_append_cons_iff (h.not_mem hmark), h.infix_cons hmark]

theorem writeChars_eq (cs after : List Char) : writeChars cs after = cs.flatMap escape ++ after := by
  induction cs with
  | nil => rfl
  | cons c cs ih => rw [writeChars, ih, List.flatMap_cons, List.append_assoc]

/-- A word stands in a written string or behind it. -/
theorem IsWord.infix_writeString {word : List Char} (h : IsWord word) (s : String)
    (after : List Char) :
    word <:+: writeString s after ↔ word <:+: escaped s ∨ word <:+: after := by
  have hquote : ('"' : Char).isAlpha = false ∧ '"' ≠ '_' := by decide
  rw [writeString, h.infix_cons hquote, writeChars_eq,
    h.infix_append _ (StartsWithMark.cons hquote after), h.infix_cons hquote, escaped]

mutual

/-- A word stands in the compact text of a value if the value mentions it, or behind it. -/
theorem infix_writeCompact {word : List Char} (h : IsWord word) (j : Json) {after : List Char}
    (hafter : StartsWithMark after) :
    word <:+: writeCompact j after ↔ Mentions word j ∨ word <:+: after := by
  cases j with
  | null =>
    have hnone : ¬ Mentions word .null := by
      rintro ⟨_, htext, -⟩
      cases htext
    show word <:+: "null".toList ++ after ↔ _
    rw [h.infix_append _ hafter, or_iff_right h.not_null, or_iff_right hnone]
  | bool b =>
    have hnone : ¬ Mentions word (.bool b) := by
      rintro ⟨_, htext, -⟩
      cases htext
    cases b with
    | true =>
      show word <:+: "true".toList ++ after ↔ _
      rw [h.infix_append _ hafter, or_iff_right h.not_true, or_iff_right hnone]
    | false =>
      show word <:+: "false".toList ++ after ↔ _
      rw [h.infix_append _ hafter, or_iff_right h.not_false, or_iff_right hnone]
  | number n =>
    have hnone : ¬ Mentions word (.number n) := by
      rintro ⟨_, htext, -⟩
      cases htext
    show word <:+: n.text ++ after ↔ _
    rw [h.infix_append _ hafter, or_iff_right (h.not_infix_number n), or_iff_right hnone]
  | string s =>
    show word <:+: writeString s after ↔ _
    rw [h.infix_writeString, mentions_string]
  | array items =>
    have hclose : StartsWithMark (']' :: after) := StartsWithMark.cons (by decide) after
    show word <:+: '[' :: compactItems true items (']' :: after) ↔ _
    rw [h.infix_cons (by decide), infix_compactItems h true items hclose,
      h.infix_cons (by decide), mentions_array]
  | object members =>
    have hclose : StartsWithMark ('\x7d' :: after) := StartsWithMark.cons (by decide) after
    show word <:+: '\x7b' :: compactMembers true members ('\x7d' :: after) ↔ _
    rw [h.infix_cons (by decide), infix_compactMembers h true members hclose,
      h.infix_cons (by decide), mentions_object]
termination_by structural j

/-- A word stands in the text of items if one of them mentions it, or behind them. -/
theorem infix_compactItems {word : List Char} (h : IsWord word) (first : Bool) (items : List Json)
    {after : List Char} (hafter : StartsWithMark after) :
    word <:+: compactItems first items after ↔
      (∃ item ∈ items, Mentions word item) ∨ word <:+: after := by
  cases items with
  | nil => simp [compactItems]
  | cons item rest =>
    have hrest := startsWithMark_compactItems rest hafter
    have hitem : word <:+: writeCompact item (compactItems false rest after) ↔
        (∃ item' ∈ item :: rest, Mentions word item') ∨ word <:+: after := by
      rw [infix_writeCompact h item hrest, infix_compactItems h false rest hafter, ← or_assoc,
        List.exists_mem_cons_iff]
    cases first with
    | true => exact hitem
    | false => exact (h.infix_cons (by decide) _).trans hitem
termination_by structural items

/-- A word stands in the text of members if one of them mentions it, or behind them. -/
theorem infix_compactMembers {word : List Char} (h : IsWord word) (first : Bool)
    (members : List (String × Json)) {after : List Char} (hafter : StartsWithMark after) :
    word <:+: compactMembers first members after ↔
      (∃ member ∈ members, word <:+: escaped member.1 ∨ Mentions word member.2) ∨
        word <:+: after := by
  cases members with
  | nil => simp [compactMembers]
  | cons member rest =>
    obtain ⟨name, value⟩ := member
    have hrest := startsWithMark_compactMembers rest hafter
    have hmember :
        word <:+: writeString name (':' :: writeCompact value (compactMembers false rest after)) ↔
          (∃ member ∈ (name, value) :: rest,
            word <:+: escaped member.1 ∨ Mentions word member.2) ∨ word <:+: after := by
      rw [h.infix_writeString, h.infix_cons (by decide), infix_writeCompact h value hrest,
        infix_compactMembers h false rest hafter, List.exists_mem_cons_iff, or_assoc, or_assoc]
    cases first with
    | true => exact hmember
    | false => exact (h.infix_cons (by decide) _).trans hmember
termination_by structural members

end

/-- A word stands in the compact text of a value exactly if the value mentions it. -/
theorem infix_compact_iff {word : List Char} (h : IsWord word) (j : Json) :
    word <:+: j.compact.toList ↔ Mentions word j := by
  rw [compact, String.toList_ofList, infix_writeCompact h j StartsWithMark.nil, List.infix_nil,
    or_iff_left h.ne_nil]

end Json

end TradingRules
