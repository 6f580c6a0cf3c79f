/-
# The two spellings of a token

The token of an order is written as an entry of its own, `SOL`, or as a pair, `token=SOL`. The first
spelling keeps the text of the token as it is. The second one goes the way of every other value, so a
token that looks like a finite number, with or without a percent sign, becomes this number, and the
order has no text for its token. In all other cases the two spellings give the same parameters.

The entries that follow the token do not decide: they are pairs that name other parameters.
-/
import TradingRules.Proofs.Action.Parameters

namespace TradingRules.Action

open TradingRules.Text

/-! ## Lists of entries -/

/-- Entries with a comma and a blank between each two of them. -/
def listed (entries : List (List Char)) : List Char :=
  ", ".toList.intercalate entries

/-- The blank behind a comma can be taken for the beginning of the next entry. -/
theorem listed_cons (first : List Char) (further : List (List Char)) :
    listed (first :: further) = [','].intercalate (first :: further.map (' ' :: ·)) := by
  induction further generalizing first with
  | nil => simp [listed]
  | cons second further ih =>
    have hrest := ih second
    simp only [listed, List.intercalate] at hrest ⊢
    simp only [List.map_cons, List.intersperse_cons_cons, List.flatten_cons, hrest]
    cases further <;> simp

/-- The entries of a list are the ones that are written, without the blanks around them. -/
theorem argumentEntries_listed {first : List Char} {further : List (List Char)}
    (hfirst : ',' ∉ first) (hfurther : ∀ entry ∈ further, ',' ∉ entry) :
    argumentEntries (listed (first :: further)) =
      ((first :: further).map trim).filter (· ≠ []) := by
  have hcomma : ∀ piece ∈ first :: further.map (' ' :: ·), ',' ∉ piece := by
    simpa [hfirst] using hfurther
  have htrim (entry : List Char) : trim (' ' :: entry) = trim entry := by
    have hblank : AllBlank [' '] := by decide
    have h := trim_append_append entry hblank AllBlank.nil
    rwa [List.append_nil, List.singleton_append] at h
  rw [argumentEntries, listed_cons, List.splitOn_intercalate ',' hcomma (List.cons_ne_nil _ _)]
  simp [Function.comp_def, htrim]

/-! ## A token in front of pairs -/

/-- An entry that follows a token: a pair that names another parameter, or none. -/
structure IsFurther (entry : List Char) : Prop where
  no_comma : ',' ∉ entry
  equals : '=' ∈ entry
  other : ∀ value, ¬ IsPair (trim entry) tokenName value

theorem isFurther_iff {entry : List Char} : IsFurther entry ↔
    ',' ∉ entry ∧ '=' ∈ entry ∧ (Entry.parse (trim entry)).valueFor tokenName = Option.none := by
  have hother (hequals : '=' ∈ trim entry) :
      (Entry.parse (trim entry)).valueFor tokenName = Option.none ↔
        ∀ value, ¬ IsPair (trim entry) tokenName value :=
    Entry.valueFor_parse_eq_none_iff (List.ne_nil_of_mem hequals) (trim_trim entry)
  constructor
  · intro h
    exact ⟨h.no_comma, h.equals, (hother ((mem_trim_iff (by decide)).mpr h.equals)).mpr h.other⟩
  · rintro ⟨hcomma, hequals, hnone⟩
    exact ⟨hcomma, hequals, (hother ((mem_trim_iff (by decide)).mpr hequals)).mp hnone⟩

instance : DecidablePred IsFurther := fun _ => decidable_of_iff' _ isFurther_iff

/-- The entries that follow a token name none, and none of them is one. -/
theorem IsFurther.trim {entry : List Char} (h : IsFurther entry) :
    trim entry ≠ [] ∧ '=' ∈ Text.trim entry ∧
      (Entry.parse (Text.trim entry)).valueFor tokenName = Option.none := by
  have hmem : '=' ∈ Text.trim entry := (mem_trim_iff (by decide)).mpr h.equals
  exact ⟨List.ne_nil_of_mem hmem, hmem, (isFurther_iff.mp h).2.2⟩

/-- The parameters of a first entry and of further ones: the first entry sets what it sets by its name
or as a token, unless a further one names the same. -/
theorem get?_listed {first : List Char} {further : List (List Char)} (hfirst : ',' ∉ first)
    (hne : trim first ≠ []) (hfurther : ∀ entry ∈ further, IsFurther entry) (key : String) :
    (parseParameters (listed (first :: further))).get? key =
      (((((further.map trim).reverse.findSome? fun entry => (Entry.parse entry).valueFor key).or
        ((Entry.parse (trim first)).valueFor key)).map Parameter.parse).or
          ((Entry.parse (trim first)).tokenFor key)) := by
  have hentries : argumentEntries (listed (first :: further)) = trim first :: further.map trim := by
    rw [argumentEntries_listed hfirst fun entry hentry => (hfurther entry hentry).no_comma,
      List.map_cons, List.filter_eq_self]
    intro entry hentry
    rcases List.mem_cons.mp hentry with rfl | hentry
    · exact decide_eq_true hne
    · obtain ⟨entry, hmem, rfl⟩ := List.mem_map.mp hentry
      exact decide_eq_true (hfurther entry hmem).trim.1
  have htokens : ((further.map trim).findSome? fun entry => (Entry.parse entry).tokenFor key) =
      Option.none := by
    rw [List.findSome?_eq_none_iff]
    intro entry hentry
    obtain ⟨entry, hmem, rfl⟩ := List.mem_map.mp hentry
    obtain ⟨hne, hpair, -⟩ := (hfurther entry hmem).trim
    rw [Entry.tokenFor_parse key hne (trim_trim entry), if_neg fun h => h.2 hpair]
  rw [get?_parseParameters, hentries, List.reverse_cons, List.findSome?_append,
    List.findSome?_singleton, List.findSome?_cons, htokens]
  cases (Entry.parse (trim first)).tokenFor key <;> rfl

/-- No further entry gives the token a value. -/
theorem findSome?_valueFor_further {further : List (List Char)}
    (hfurther : ∀ entry ∈ further, IsFurther entry) :
    ((further.map trim).reverse.findSome? fun entry => (Entry.parse entry).valueFor tokenName) =
      Option.none := by
  rw [List.findSome?_eq_none_iff]
  intro entry hentry
  obtain ⟨entry, hmem, rfl⟩ := List.mem_map.mp (List.mem_reverse.mp hentry)
  exact (hfurther entry hmem).trim.2.2

/-! ## The two spellings -/

/-- A text that can be written as a token in both ways. -/
structure IsToken (token : List Char) : Prop where
  not_blank : ¬ AllBlank token
  no_comma : ',' ∉ token
  no_equals : '=' ∉ token

instance : DecidablePred IsToken := fun token =>
  decidable_of_iff (¬ AllBlank token ∧ ',' ∉ token ∧ '=' ∉ token)
    ⟨fun ⟨hblank, hcomma, hequals⟩ => ⟨hblank, hcomma, hequals⟩,
      fun h => ⟨h.not_blank, h.no_comma, h.no_equals⟩⟩

/-- A token as a pair. -/
def namedToken (token : List Char) : List Char :=
  tokenName.toList ++ '=' :: token

section

variable {token : List Char} {further : List (List Char)} (htoken : IsToken token)
  (hfurther : ∀ entry ∈ further, IsFurther entry)

include htoken hfurther

/-- A token that is an entry of its own is kept as a text. -/
theorem get?_token (key : String) :
    (parseParameters (listed (token :: further))).get? key =
      if key = tokenName then some (.text (String.ofList (trim token)))
      else ((further.map trim).reverse.findSome? fun entry =>
        (Entry.parse entry).valueFor key).map Parameter.parse := by
  have hne : trim token ≠ [] := trim_eq_nil_iff.not.mpr htoken.not_blank
  have hequals : '=' ∉ trim token := (mem_trim_iff (by decide)).not.mpr htoken.no_equals
  have hentry : Entry.parse (trim token) = .positional (trim token) :=
    Entry.parse_of_notMem hne (trim_trim token) hequals
  rw [get?_listed htoken.no_comma hne hfurther, hentry]
  by_cases hkey : key = tokenName
  · subst hkey
    rw [findSome?_valueFor_further hfurther]
    rfl
  · simp [Entry.tokenFor, Entry.valueFor, hkey]

/-- A token that is a pair is read as a value. -/
theorem get?_namedToken (key : String) :
    (parseParameters (listed (namedToken token :: further))).get? key =
      if key = tokenName then some (Parameter.parse (trim token))
      else ((further.map trim).reverse.findSome? fun entry =>
        (Entry.parse entry).valueFor key).map Parameter.parse := by
  have hcomma : ',' ∉ namedToken token := by
    rw [namedToken, List.mem_append, List.mem_cons, not_or, not_or]
    exact ⟨by decide, by decide, htoken.no_comma⟩
  have htrim : trim (namedToken token) = tokenName.toList ++ '=' :: (trimEnd token ++ []) := by
    have hname : ¬ AllBlank (tokenName.toList ++ ['=']) := by decide
    have hstart : trimStart (tokenName.toList ++ ['=']) = tokenName.toList ++ ['='] := by decide
    have h : trim (tokenName.toList ++ ['='] ++ [] ++ token) =
        trimStart (tokenName.toList ++ ['=']) ++ [] ++ trimEnd token :=
      trim_append_of_not_allBlank hname htoken.not_blank
    simpa [namedToken, hstart] using h
  have hne : trim (namedToken token) ≠ [] := by
    rw [htrim]
    exact List.append_ne_nil_of_right_ne_nil _ (List.cons_ne_nil _ _)
  have hentry : Entry.parse (trim (namedToken token)) = .pair tokenName.toList (trim token) := by
    obtain ⟨ws, -, hws⟩ := exists_trimEnd token
    have hmiddle : '=' ∉ trimEnd token := fun hmem =>
      htoken.no_equals (hws ▸ List.mem_append_left ws hmem)
    have hcut : IsCut tokenName.toList (trimEnd token) [] (trim (namedToken token)) :=
      ⟨by decide, hmiddle, Or.inl rfl, htrim⟩
    rw [hcut.parse_eq (trim_trim _), trim_trimEnd]
    rfl
  rw [get?_listed hcomma hne hfurther, hentry]
  by_cases hkey : key = tokenName
  · subst hkey
    rw [findSome?_valueFor_further hfurther]
    simp [Entry.valueFor_pair, String.ofList_toList]
  · have hother : (Entry.pair tokenName.toList (trim token)).valueFor key = Option.none := by
      rw [Entry.valueFor_pair, String.ofList_toList, if_neg (Ne.symm hkey)]
    rw [hother, Option.or_none, Entry.tokenFor_eq_none rfl, Option.or_none, if_neg hkey]

end

/-- **The two spellings of a token.** Let a token hold neither a comma nor an equality sign and more than
blanks, and let pairs that name other parameters follow it. As an entry of its own the token of the order
is the text without the blanks around it. As a pair it gives the same parameters if the text writes no
finite number, with or without a percent sign. If it writes one, the parameter is this number, the order
has no token, and all other parameters are the same. -/
theorem spellings_exact {token : List Char} {further : List (List Char)} (htoken : IsToken token)
    (hfurther : ∀ entry ∈ further, IsFurther entry) :
    (∀ kind, (Action.mk kind (parseParameters (listed (token :: further)))).token? =
      some (String.ofList (trim token))) ∧
    ((∀ x, ¬ Parameter.Denotes (trim token) (.number x)) →
      parseParameters (listed (namedToken token :: further)) =
        parseParameters (listed (token :: further))) ∧
    ∀ x, Parameter.Denotes (trim token) (.number x) →
      (parseParameters (listed (namedToken token :: further))).get? tokenName =
        some (.number x) ∧
      (∀ kind, (Action.mk kind
        (parseParameters (listed (namedToken token :: further)))).token? = Option.none) ∧
      ∀ key, key ≠ tokenName →
        (parseParameters (listed (namedToken token :: further))).get? key =
          (parseParameters (listed (token :: further))).get? key := by
  have hbare := get?_token htoken hfurther
  have hnamed := get?_namedToken htoken hfurther
  refine ⟨fun kind => ?_, fun hnumber => ?_, fun x hnumber => ?_⟩
  · rw [token?, hbare, if_pos rfl]
    rfl
  · apply Dictionary.ext_get?
    intro key
    rw [hbare, hnamed]
    have htext : Parameter.parse (trim token) = .text (String.ofList (trim token)) := by
      refine Parameter.parse_eq_iff.mpr ⟨rfl, fun bare x hbare' hwrites => ?_⟩
      exact hnumber x ⟨bare, hbare', hwrites⟩
    rw [htext]
  · have hparse : Parameter.parse (trim token) = .number x := Parameter.parse_eq_iff.mpr hnumber
    refine ⟨?_, fun kind => ?_, fun key hkey => ?_⟩
    · rw [hnamed, if_pos rfl, hparse]
    · rw [token?, hnamed, if_pos rfl, hparse]
      rfl
    · rw [hnamed, hbare, if_neg hkey, if_neg hkey]

/-- A text that is read as a text writes no number. -/
theorem not_denotes_number {text : List Char} {s : String} (h : Parameter.parse text = .text s)
    (x : Float) : ¬ Parameter.Denotes text (.number x) := by
  intro hnumber
  rw [Parameter.parse_eq_iff.mpr hnumber] at h
  cases h

/-- A name with digits is the same in both spellings, and so is a word for infinity, since that is no
finite number. A percentage is a number as a pair. -/
theorem spellings_of_samples :
    (IsToken " 1INCH ".toList ∧ IsToken "inf".toList ∧ IsToken "50 %".toList ∧
        ∀ entry ∈ [" qty = 1".toList, "=token".toList], IsFurther entry) ∧
      parseParameters "token= 1INCH ,  qty = 1, =token".toList =
        parseParameters " 1INCH ,  qty = 1, =token".toList ∧
      parseParameters "token=inf".toList = parseParameters "inf".toList ∧
      (parseParameters "token=50 %,  qty = 1, =token".toList).get? tokenName =
        some (.number 50) := by
  have hname : IsToken " 1INCH ".toList := by decide
  have hword : IsToken "inf".toList := by decide
  have hpercentage : IsToken "50 %".toList := by decide
  have hfurther : ∀ entry ∈ [" qty = 1".toList, "=token".toList], IsFurther entry := by decide
  have hnothing : ∀ entry ∈ ([] : List (List Char)), IsFurther entry := by decide
  have htext : Parameter.parse (trim " 1INCH ".toList) = .text "1INCH" := by decide +kernel
  have hinfinity : Parameter.parse (trim "inf".toList) = .text "inf" := by decide +kernel
  have hfifty : Parameter.parse (trim "50 %".toList) = .number 50 := by decide +kernel
  refine ⟨⟨hname, hword, hpercentage, hfurther⟩, ?_, ?_, ?_⟩
  · exact (spellings_exact hname hfurther).2.1 (not_denotes_number htext)
  · exact (spellings_exact hword hnothing).2.1 (not_denotes_number hinfinity)
  · exact ((spellings_exact hpercentage hfurther).2.2 50 (Parameter.parse_eq_iff.mp hfifty)).1

/-- A token that writes a number is lost when it is named. -/
theorem numeral_lost_when_named :
    IsToken "404".toList ∧
      (Action.mk .buy (parseParameters (listed ["404".toList]))).token? = some "404" ∧
      (Action.mk .buy (parseParameters (listed [namedToken "404".toList]))).token? = none ∧
      parseParameters (listed [namedToken "404".toList]) ≠
        parseParameters (listed ["404".toList]) := by
  decide +kernel

end TradingRules.Action
