/-
# Well-formed actions

The arguments of a call end at a closing parenthesis, their entries at commas and the name and the
value in an entry at equality signs; a call stands in a block, which ends at a closing brace. So no
name and no text among the parameters holds any of these, and all of them are trimmed. A number among
the parameters is finite: what is no finite number is taken for a text.
-/
import TradingRules.Proofs.Action.Orders

namespace TradingRules

open TradingRules.Text

namespace Action

/-! ## Names and values -/

/-- The characters that end a name or a value. -/
def delimiters : List Char := [',', '=', ')', '\x7d']

/-- A text as it stands between delimiters, without the blanks around it. -/
structure IsArgument (text : List Char) : Prop where
  isTrimmed : IsTrimmed text
  no_delimiter : ∀ c ∈ delimiters, c ∉ text

/-- What holds no delimiter is an argument after trimming. -/
theorem isArgument_trim {text : List Char} (h : ∀ c ∈ delimiters, c ∉ text) :
    IsArgument (trim text) where
  isTrimmed := isTrimmed_trim text
  no_delimiter c hc hmem := h c hc ((trim_isInfix text).subset hmem)

/-- The name of a parameter is not empty. -/
structure IsName (name : String) : Prop extends IsArgument name.toList where
  ne_empty : name ≠ ""

theorem isName_ofList {name : List Char} (h : IsArgument name) (hne : name ≠ []) :
    IsName (String.ofList name) := by
  have hchars : (String.ofList name).toList = name := String.toList_ofList
  constructor
  · rwa [hchars]
  · intro hempty
    rw [hempty] at hchars
    exact hne hchars.symm

/-- The token has a name. -/
theorem isName_tokenName : IsName tokenName where
  isTrimmed := by
    constructor
    · rintro c ⟨⟩
      decide
    · rintro c ⟨⟩
      decide
  no_delimiter := by simp [delimiters, tokenName]
  ne_empty := by decide

end Action

open TradingRules.Action (delimiters IsArgument IsName)

/-- A value is a finite number or a text as it stands between delimiters. -/
def Parameter.WellFormed : Parameter → Prop
  | .number x => x.isFinite = true
  | .text s => IsArgument s.toList

theorem Parameter.wellFormed_text {text : List Char} (h : IsArgument text) :
    (Parameter.text (String.ofList text)).WellFormed := by
  show IsArgument (String.ofList text).toList
  rwa [String.toList_ofList]

/-- What is read as a value is well formed. -/
theorem Parameter.wellFormed_parse {text : List Char} (h : IsArgument text) :
    (parse text).WellFormed := by
  unfold parse
  split
  · split_ifs with hfinite
    · exact hfinite
    · exact wellFormed_text h
  · exact wellFormed_text h

/-! ## Entries -/

namespace Action

/-- The name, the value or the token in an entry stand between delimiters; a name is not empty. -/
def Entry.WellFormed : Entry → Prop
  | .none => True
  | .pair name value => name ≠ [] ∧ IsArgument name ∧ IsArgument value
  | .positional token => IsArgument token

/-- An entry that stands between the other delimiters is well formed: it is cut at the equality
signs. -/
theorem Entry.wellFormed_parse {text : List Char} (h : ∀ c ∈ delimiters, c ≠ '=' → c ∉ text) :
    (Entry.parse text).WellFormed := by
  have hpiece {piece : List Char} (hmem : piece ∈ splitOn '=' (trim text)) :
      ∀ c ∈ delimiters, c ∉ piece := by
    obtain ⟨hequals, hsubset⟩ := of_mem_splitOn hmem
    intro c hc hcmem
    by_cases heq : c = '='
    · exact hequals (heq ▸ hcmem)
    · exact h c hc heq ((trim_isInfix text).subset (hsubset hcmem))
  unfold Entry.parse
  simp only
  split_ifs with hempty
  · trivial
  split
  · rename_i name value rest hpieces
    have hargument {part : List Char} (hmem : part ∈ (splitOn '=' (trim text)).map trim) :
        IsArgument part := by
      obtain ⟨piece, hpiece', rfl⟩ := List.mem_map.mp hmem
      exact isArgument_trim (hpiece hpiece')
    rw [hpieces] at hargument
    split_ifs with hname
    · trivial
    · refine ⟨fun hnil => hname (List.isEmpty_iff.mpr hnil), hargument ?_, hargument ?_⟩
      · exact List.mem_cons_self
      · exact List.mem_cons_of_mem _ List.mem_cons_self
  · rename_i hfew
    have hone : splitOn '=' (trim text) = [trim text] := by
      rcases splitOn_eq_singleton_or '=' (trim text) with hone | ⟨name, value, rest, hpieces⟩
      · exact hone
      · rw [hpieces] at hfew
        exact absurd rfl (hfew _ _ _)
    -- the entry is its only piece, and so holds no equality sign
    have htoken := isArgument_trim (hpiece (hone ▸ List.mem_singleton_self _))
    rwa [trim_trim] at htoken

end Action

/-! ## Parameters -/

namespace Parameters

/-- Parameters have names, and well-formed values. -/
def WellFormed (p : Parameters) : Prop :=
  ∀ e ∈ p.entries, IsName e.1 ∧ e.2.WellFormed

/-- Setting a well-formed parameter keeps parameters well formed. -/
theorem WellFormed.insert {p : Parameters} (h : WellFormed p) {name : String} {value : Parameter}
    (hname : IsName name) (hvalue : value.WellFormed) : WellFormed (p.insert name value) := by
  intro e he
  rcases Dictionary.mem_putEntry he with rfl | he
  · exact ⟨hname, hvalue⟩
  · exact h e he

/-- Entering an entry keeps parameters well formed. -/
theorem WellFormed.enter {p : Parameters} (h : WellFormed p) {entry : Action.Entry}
    (hentry : entry.WellFormed) : WellFormed (entry.enter p) := by
  cases entry with
  | none => exact h
  | pair name value =>
    obtain ⟨hne, hname, hvalue⟩ := hentry
    exact h.insert (Action.isName_ofList hname hne) (Parameter.wellFormed_parse hvalue)
  | positional token =>
    rw [Action.Entry.enter]
    split_ifs with hknown
    · exact h
    · exact h.insert Action.isName_tokenName (Parameter.wellFormed_text hentry)

/-- The parameters of a call are well formed. -/
theorem wellFormed_parseParameters {text : List Char}
    (h : ∀ c ∈ delimiters, c ≠ '=' → c ≠ ',' → c ∉ text) :
    WellFormed (Action.parseParameters text) := by
  have hentries : ∀ entry ∈ (splitOn ',' text).map Action.Entry.parse, entry.WellFormed := by
    intro entry hentry
    obtain ⟨piece, hpiece, rfl⟩ := List.mem_map.mp hentry
    obtain ⟨hcomma, hsubset⟩ := of_mem_splitOn hpiece
    refine Action.Entry.wellFormed_parse fun c hc hequals hmem => ?_
    by_cases heq : c = ','
    · exact hcomma (heq ▸ hmem)
    · exact h c hc hequals heq (hsubset hmem)
  unfold Action.parseParameters
  refine List.foldlRecOn _ Action.Entry.enter (motive := WellFormed) ?_ ?_
  · intro e he
    cases he
  · intro p hp entry hentry
    exact hp.enter (hentries entry hentry)

end Parameters

/-! ## Actions -/

namespace Action

/-- An action has well-formed parameters. -/
def WellFormed (a : Action) : Prop :=
  Parameters.WellFormed a.parameters

/-- The orders in the body of a block are at most one purchase and at most one sale, the purchase
first, and are well formed. -/
theorem wellFormed_parse {text : List Char} (hbrace : '\x7d' ∉ text) :
    ((parse text).map (·.kind)).Sublist [.buy, .sell] ∧ ∀ a ∈ parse text, a.WellFormed := by
  refine ⟨kinds_parse text, fun a ha => ?_⟩
  obtain ⟨arguments, ⟨before, after, rfl, hcall, -⟩, hparameters⟩ := mem_parse_iff.mp ha
  obtain ⟨-, hparenthesis, ws, rest, -, rfl⟩ := hcall
  rw [WellFormed, hparameters]
  refine Parameters.wellFormed_parseParameters fun c hc hequals hcomma hmem => ?_
  have hcases : c = ')' ∨ c = '\x7d' := by
    simpa [delimiters, hequals, hcomma] using hc
  rcases hcases with rfl | rfl
  · exact hparenthesis hmem
  · refine hbrace (List.mem_append_right _ (List.mem_append_right _ (List.mem_append_right _ ?_)))
    exact List.mem_cons_of_mem _ (List.mem_append_left _ hmem)

end Action

end TradingRules
