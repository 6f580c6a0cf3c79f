/-
# Parameters as a map

The entries of a call are read from the left. A pair sets the parameter that it names, so the last pair
of a name counts; an entry without an equality sign sets the token, but only if there is none yet. What
results can be said without the order of reading: the token is that of the last pair of this name,
wherever it stands, and without such a pair the first entry without an equality sign. So entries that
set different parameters can be exchanged.
-/
import TradingRules.Proofs.Action.Entry
import TradingRules.Proofs.Dictionary

namespace TradingRules.Action

open TradingRules.Text

/-! ## One entry after the other -/

/-- An entry sets the parameter that it names, and the token if there is none. -/
theorem Entry.get?_enter (p : Parameters) (e : Entry) (key : String) :
    (e.enter p).get? key =
      ((e.valueFor key).map Parameter.parse).or ((p.get? key).or (e.tokenFor key)) := by
  cases e with
  | none =>
    rw [tokenFor_eq_none rfl, Option.or_none]
    rfl
  | pair name value =>
    have hget : (enter p (.pair name value)).get? key =
        if key = String.ofList name then some (Parameter.parse value) else p.get? key :=
      Dictionary.get?_insert p _ key _
    rw [hget, tokenFor_eq_none rfl, Option.or_none, valueFor]
    by_cases hkey : String.ofList name = key
    · rw [if_pos hkey, if_pos hkey.symm]
      rfl
    · rw [if_neg hkey, if_neg (Ne.symm hkey)]
      rfl
  | positional token =>
    have henter : enter p (.positional token) = if p.contains tokenName then p
        else p.insert tokenName (.text (String.ofList token)) := rfl
    have hvalue : (positional token).valueFor key = Option.none := rfl
    rw [henter, hvalue, Option.map_none, Option.none_or, tokenFor]
    by_cases hset : p.contains tokenName = true
    · -- the token stays as it is
      rw [if_pos hset]
      split_ifs with hkey
      · obtain ⟨value, hvalue⟩ := Option.isSome_iff_exists.mp hset
        rw [hkey, hvalue, Option.some_or]
      · rw [Option.or_none]
    · have hunset : p.get? tokenName = Option.none := Option.not_isSome_iff_eq_none.mp hset
      rw [if_neg hset, Dictionary.get?_insert]
      split_ifs with hkey
      · rw [hkey, hunset]
        rfl
      · rw [Option.or_none]

/-- Among entries that are read one after the other the last pair with a name counts, and for the token
the first entry without one if there is no such pair. -/
theorem get?_foldl_enter (entries : List Entry) (key : String) :
    (entries.foldl Entry.enter Dictionary.empty).get? key =
      ((entries.reverse.findSome? (Entry.valueFor key)).map Parameter.parse).or
        (entries.findSome? (Entry.tokenFor key)) := by
  -- from the right: the entry that is read last goes before the others if it is a pair, and behind
  -- them if it has no name
  induction entries using List.reverseRecOn with
  | nil => rfl
  | append_singleton entries e ih =>
    rw [List.foldl_append, List.foldl_cons, List.foldl_nil, Entry.get?_enter, ih,
      List.reverse_concat, List.findSome?_cons, List.findSome?_append, List.findSome?_singleton,
      Option.or_assoc]
    cases Entry.valueFor key e <;> rfl

/-! ## All entries of a text -/

/-- Blank pieces between commas and blanks around the others do not matter. -/
theorem foldl_enter_pieces (p : Parameters) (pieces : List (List Char)) :
    (pieces.map Entry.parse).foldl Entry.enter p =
      (((pieces.map trim).filter (· ≠ [])).map Entry.parse).foldl Entry.enter p := by
  induction pieces generalizing p with
  | nil => rfl
  | cons piece pieces ih =>
    rw [List.map_cons, List.foldl_cons, List.map_cons, List.filter_cons, ih]
    by_cases hblank : trim piece = []
    · have hnothing : Entry.parse piece = .none := by
        unfold Entry.parse
        simp only [hblank]
        rfl
      rw [if_neg (by simp [hblank]), hnothing]
      rfl
    · have htrim : Entry.parse (trim piece) = Entry.parse piece := by
        unfold Entry.parse
        rw [trim_trim]
      rw [if_pos (decide_eq_true hblank), List.map_cons, List.foldl_cons, htrim]

/-- The value of a parameter, from the entries of a text. -/
theorem get?_parseParameters (text : List Char) (key : String) :
    (parseParameters text).get? key =
      (((argumentEntries text).reverse.findSome? fun entry =>
          (Entry.parse entry).valueFor key).map Parameter.parse).or
        ((argumentEntries text).findSome? fun entry => (Entry.parse entry).tokenFor key) := by
  unfold parseParameters
  rw [splitOn_eq, foldl_enter_pieces]
  show (((argumentEntries text).map Entry.parse).foldl Entry.enter Dictionary.empty).get? key = _
  rw [get?_foldl_enter, ← List.map_reverse, List.findSome?_map, List.findSome?_map]
  rfl

/-- The last pair that names a parameter gives it a value. -/
def IsLastPair (entries : List (List Char)) (key : String) (value : List Char) : Prop :=
  ∃ before entry after, entries = before ++ entry :: after ∧ IsPair entry key value ∧
    ∀ e ∈ after, ∀ value', ¬ IsPair e key value'

/-- The first entry without an equality sign is a token. -/
def IsFirstToken (entries : List (List Char)) (token : List Char) : Prop :=
  ∃ before after, entries = before ++ token :: after ∧ '=' ∉ token ∧ ∀ e ∈ before, '=' ∈ e

/-- The last success of a search is the first one from the other end. -/
theorem findSome?_reverse_eq_some_iff {α β : Type} {f : α → Option β} {l : List α} {b : β} :
    l.reverse.findSome? f = some b ↔
      ∃ before a after, l = before ++ a :: after ∧ f a = some b ∧ ∀ x ∈ after, f x = none := by
  rw [List.findSome?_eq_some_iff]
  constructor
  · rintro ⟨front, a, back, hreverse, ha, hfront⟩
    refine ⟨back.reverse, a, front.reverse, ?_, ha, fun x hx => hfront x (List.mem_reverse.mp hx)⟩
    rw [← List.reverse_reverse l, hreverse, List.reverse_append, List.reverse_cons,
      List.append_assoc, List.singleton_append]
  · rintro ⟨before, a, after, rfl, ha, hafter⟩
    refine ⟨after.reverse, a, before.reverse, ?_, ha, fun x hx => hafter x (List.mem_reverse.mp hx)⟩
    rw [List.reverse_append, List.reverse_cons, List.append_assoc, List.singleton_append]

/-- The last entry that gives a parameter a value is the last pair that names it. -/
theorem findSome?_valueFor_eq_some_iff {text value : List Char} {key : String} :
    ((argumentEntries text).reverse.findSome? fun entry => (Entry.parse entry).valueFor key) =
      some value ↔ IsLastPair (argumentEntries text) key value := by
  rw [findSome?_reverse_eq_some_iff]
  unfold IsLastPair
  refine exists₃_congr fun before entry after => and_congr_right fun hentries => ?_
  have hmem {e : List Char} (he : e ∈ entry :: after) : e ≠ [] ∧ trim e = e := by
    apply of_mem_argumentEntries
    rw [hentries]
    exact List.mem_append_right before he
  refine and_congr ?_ (forall₂_congr fun e he => ?_)
  · obtain ⟨hne, htrim⟩ := hmem List.mem_cons_self
    exact Entry.valueFor_parse_eq_some_iff hne htrim
  · obtain ⟨hne, htrim⟩ := hmem (List.mem_cons_of_mem entry he)
    exact Entry.valueFor_parse_eq_none_iff hne htrim

/-- No entry gives a parameter a value exactly if no pair names it. -/
theorem findSome?_valueFor_eq_none_iff {text : List Char} {key : String} :
    ((argumentEntries text).reverse.findSome? fun entry => (Entry.parse entry).valueFor key) =
      Option.none ↔ ∀ entry ∈ argumentEntries text, ∀ value, ¬ IsPair entry key value := by
  rw [List.findSome?_eq_none_iff]
  simp only [List.mem_reverse]
  refine forall₂_congr fun entry hentry => ?_
  obtain ⟨hne, htrim⟩ := of_mem_argumentEntries hentry
  exact Entry.valueFor_parse_eq_none_iff hne htrim

/-- The first entry that sets the token without a name is the first one without an equality sign. -/
theorem findSome?_tokenFor_eq_some_iff {text : List Char} {key : String} {value : Parameter} :
    ((argumentEntries text).findSome? fun entry => (Entry.parse entry).tokenFor key) = some value ↔
      key = tokenName ∧ ∃ token, IsFirstToken (argumentEntries text) token ∧
        value = .text (String.ofList token) := by
  have htoken {entry : List Char} (h : entry ∈ argumentEntries text) :
      (Entry.parse entry).tokenFor key = if key = tokenName ∧ '=' ∉ entry
        then some (.text (String.ofList entry)) else Option.none := by
    obtain ⟨hne, htrim⟩ := of_mem_argumentEntries h
    exact Entry.tokenFor_parse key hne htrim
  rw [List.findSome?_eq_some_iff]
  constructor
  · rintro ⟨before, token, after, hentries, hvalue, hbefore⟩
    rw [htoken (by simp [hentries])] at hvalue
    split_ifs at hvalue with hfirst
    obtain ⟨hkey, hpair⟩ := hfirst
    refine ⟨hkey, token, ⟨before, after, hentries, hpair, ?_⟩, (Option.some.inj hvalue).symm⟩
    intro e he
    have hnone := hbefore e he
    rw [htoken (by simp [hentries, he])] at hnone
    by_contra hpair'
    rw [if_pos ⟨hkey, hpair'⟩] at hnone
    cases hnone
  · rintro ⟨hkey, token, ⟨before, after, hentries, hpair, hbefore⟩, rfl⟩
    refine ⟨before, token, after, hentries, ?_, ?_⟩
    · rw [htoken (by simp [hentries]), if_pos ⟨hkey, hpair⟩]
    · intro e he
      rw [htoken (by simp [hentries, he]), if_neg fun h => h.2 (hbefore e he)]

/-- The map of the parameters, without the order in which the entries are read. -/
theorem get?_parseParameters_eq_some_iff {text : List Char} {key : String} {value : Parameter} :
    (parseParameters text).get? key = some value ↔
      (∃ written, IsLastPair (argumentEntries text) key written ∧
        Parameter.Denotes written value) ∨
      (key = tokenName ∧ (∀ entry ∈ argumentEntries text, ∀ written, ¬ IsPair entry key written) ∧
        ∃ token, IsFirstToken (argumentEntries text) token ∧ value = .text (String.ofList token)) := by
  rw [get?_parseParameters, Option.or_eq_some_iff, Option.map_eq_some_iff, Option.map_eq_none_iff,
    findSome?_valueFor_eq_none_iff, findSome?_tokenFor_eq_some_iff]
  refine or_congr (exists_congr fun written => ?_) ?_
  · rw [findSome?_valueFor_eq_some_iff, Parameter.parse_eq_iff]
  · exact and_left_comm

/-! ## Which parameters there are -/

/-- There is a first entry without an equality sign if there is one at all. -/
theorem exists_isFirstToken_iff {entries : List (List Char)} :
    (∃ token, IsFirstToken entries token) ↔ ∃ entry ∈ entries, '=' ∉ entry := by
  constructor
  · rintro ⟨token, before, after, rfl, hpair, -⟩
    exact ⟨token, List.mem_append_right before List.mem_cons_self, hpair⟩
  · rintro ⟨entry, hmem, hpair⟩
    have hsome : (entries.find? fun e => decide ('=' ∉ e)).isSome = true :=
      List.find?_isSome.mpr ⟨entry, hmem, decide_eq_true hpair⟩
    obtain ⟨token, htoken⟩ := Option.isSome_iff_exists.mp hsome
    obtain ⟨hfirst, before, after, hentries, hbefore⟩ := List.find?_eq_some_iff_append.mp htoken
    refine ⟨token, before, after, hentries, of_decide_eq_true hfirst, ?_⟩
    intro e he
    simpa using hbefore e he

/-- The parameters are those that a pair names, and the token if an entry has no equality sign. -/
theorem contains_parseParameters_iff {text : List Char} {key : String} :
    (parseParameters text).contains key = true ↔
      (∃ entry ∈ argumentEntries text, ∃ written, IsPair entry key written) ∨
      key = tokenName ∧ ∃ entry ∈ argumentEntries text, '=' ∉ entry := by
  have hpairs : ((argumentEntries text).reverse.findSome? fun entry =>
      (Entry.parse entry).valueFor key) ≠ none ↔
        ∃ entry ∈ argumentEntries text, ∃ written, IsPair entry key written := by
    rw [ne_eq, findSome?_valueFor_eq_none_iff]
    push Not
    rfl
  have htokens : (∃ value, ((argumentEntries text).findSome? fun entry =>
      (Entry.parse entry).tokenFor key) = some value) ↔
        key = tokenName ∧ ∃ entry ∈ argumentEntries text, '=' ∉ entry := by
    simp only [findSome?_tokenFor_eq_some_iff, exists_and_left]
    rw [← exists_isFirstToken_iff]
    refine and_congr_right fun _ => ?_
    constructor
    · rintro ⟨value, token, htoken, -⟩
      exact ⟨token, htoken⟩
    · rintro ⟨token, htoken⟩
      exact ⟨_, token, htoken, rfl⟩
  rw [Dictionary.contains, get?_parseParameters, Option.isSome_or, Bool.or_eq_true,
    Option.isSome_map, Option.isSome_iff_ne_none, Option.isSome_iff_exists, hpairs, htokens]

/-! ## Entries in another order -/

/-- A search finds the same in two lists of the same members if all of its successes agree. -/
theorem findSome?_eq_of_mem_iff {α β : Type} {f : α → Option β} {l l' : List α}
    (hmem : ∀ x, x ∈ l ↔ x ∈ l')
    (hagree : ∀ x ∈ l, ∀ y ∈ l, ∀ a b, f x = some a → f y = some b → a = b) :
    l.findSome? f = l'.findSome? f := by
  cases hfound : l.findSome? f with
  | none =>
    rw [eq_comm, List.findSome?_eq_none_iff]
    intro x hx
    exact List.findSome?_eq_none_iff.mp hfound x ((hmem x).mpr hx)
  | some a =>
    obtain ⟨x, hx, hxa⟩ := List.exists_of_findSome?_eq_some hfound
    have hsome : (l'.findSome? f).isSome = true :=
      List.findSome?_isSome_iff.mpr ⟨x, (hmem x).mp hx, by rw [hxa]; rfl⟩
    obtain ⟨b, hb⟩ := Option.isSome_iff_exists.mp hsome
    obtain ⟨y, hy, hyb⟩ := List.exists_of_findSome?_eq_some hb
    rw [hb, hagree x hx y ((hmem y).mpr hy) a b hxa hyb]

/-- Two entries do not set the same parameter: they are not both without an equality sign, and they
are not both pairs with one name. -/
def Apart (entry entry' : List Char) : Prop :=
  ('=' ∈ entry ∨ '=' ∈ entry') ∧
    ∀ key value value', IsPair entry key value → ¬ IsPair entry' key value'

instance : Std.Symm Apart where
  symm _ _ h := ⟨h.1.symm, fun key value value' hpair hpair' => h.2 key value' value hpair' hpair⟩

/-- Entries that do not set the same parameter can be exchanged. -/
theorem parseParameters_eq_of_perm {text text' : List Char}
    (hperm : (argumentEntries text').Perm (argumentEntries text))
    (hapart : (argumentEntries text).Pairwise Apart) :
    parseParameters text' = parseParameters text := by
  apply Dictionary.ext_get?
  intro key
  have hpairs : ((argumentEntries text').reverse.findSome? fun entry =>
      (Entry.parse entry).valueFor key) =
        (argumentEntries text).reverse.findSome? fun entry => (Entry.parse entry).valueFor key := by
    apply findSome?_eq_of_mem_iff
    · intro x
      rw [List.mem_reverse, List.mem_reverse, hperm.mem_iff]
    · -- two pairs with one name are one entry
      intro x hx y hy a b ha hb
      rw [List.mem_reverse, hperm.mem_iff] at hx hy
      obtain ⟨hne, htrim⟩ := of_mem_argumentEntries hx
      obtain ⟨hne', htrim'⟩ := of_mem_argumentEntries hy
      rw [Entry.valueFor_parse_eq_some_iff hne htrim] at ha
      rw [Entry.valueFor_parse_eq_some_iff hne' htrim'] at hb
      by_cases hsame : x = y
      · subst hsame
        exact (ha.unique hne htrim hb).2
      · exact absurd hb ((hapart.forall hx hy hsame).2 key a b ha)
  have htokens : ((argumentEntries text').findSome? fun entry => (Entry.parse entry).tokenFor key) =
      (argumentEntries text).findSome? fun entry => (Entry.parse entry).tokenFor key := by
    apply findSome?_eq_of_mem_iff
    · intro x
      rw [hperm.mem_iff]
    · -- two entries without an equality sign are one entry
      intro x hx y hy a b ha hb
      rw [hperm.mem_iff] at hx hy
      obtain ⟨hne, htrim⟩ := of_mem_argumentEntries hx
      obtain ⟨hne', htrim'⟩ := of_mem_argumentEntries hy
      rw [Entry.tokenFor_parse key hne htrim] at ha
      rw [Entry.tokenFor_parse key hne' htrim'] at hb
      split_ifs at ha with hx'
      split_ifs at hb with hy'
      have hsame : x = y := by
        by_contra hdiffer
        rcases (hapart.forall hx hy hdiffer).1 with hpair | hpair
        · exact hx'.2 hpair
        · exact hy'.2 hpair
      rw [← Option.some.inj ha, ← Option.some.inj hb, hsame]
  rw [get?_parseParameters, get?_parseParameters, hpairs, htokens]

/-- **The parameters of a call.** A parameter has the value of the last pair that names it: the finite
number that is written, apart from one percent sign at the end, or the text. Without a pair that names
the token, wherever that stands, the token is the first entry without an equality sign. There are no
other parameters. So a text with the same entries in another order gives the same parameters, if no two
of the entries set the same one. -/
theorem parameters_exact (text : List Char) :
    (∀ key value, (parseParameters text).get? key = some value ↔
      (∃ written, IsLastPair (argumentEntries text) key written ∧
        Parameter.Denotes written value) ∨
      key = tokenName ∧ (∀ entry ∈ argumentEntries text, ∀ written, ¬ IsPair entry key written) ∧
        ∃ token, IsFirstToken (argumentEntries text) token ∧
          value = .text (String.ofList token)) ∧
    (∀ key, (parseParameters text).contains key = true ↔
      (∃ entry ∈ argumentEntries text, ∃ written, IsPair entry key written) ∨
      key = tokenName ∧ ∃ entry ∈ argumentEntries text, '=' ∉ entry) ∧
    ∀ text', (argumentEntries text').Perm (argumentEntries text) →
      (argumentEntries text).Pairwise Apart → parseParameters text' = parseParameters text :=
  ⟨fun _ _ => get?_parseParameters_eq_some_iff, fun _ => contains_parseParameters_iff,
    fun _ hperm hapart => parseParameters_eq_of_perm hperm hapart⟩

/-- Parameters in another order, and a token that is named behind one that is not. -/
theorem parameters_in_any_order :
    parseParameters "sl = 2 %,, SOL ,qty=1 = x".toList =
      parseParameters "SOL, qty=1 = x , sl = 2 %".toList ∧
    (parseParameters "SOL, token=ETH, BONK".toList).get? "token" = some (.text "ETH") := by
  have hfirst : argumentEntries "SOL, qty=1 = x , sl = 2 %".toList =
      ["SOL".toList, "qty=1 = x".toList, "sl = 2 %".toList] := by decide +kernel
  have hsecond : argumentEntries "sl = 2 %,, SOL ,qty=1 = x".toList =
      ["sl = 2 %".toList, "SOL".toList, "qty=1 = x".toList] := by decide +kernel
  have hqty : IsPair "qty=1 = x".toList "qty" "1".toList :=
    ⟨"qty".toList, "1 ".toList, "= x".toList, ⟨by decide, by decide, Or.inr ⟨_, rfl⟩, rfl⟩,
      by decide, by decide, by decide⟩
  have hsl : IsPair "sl = 2 %".toList "sl" "2 %".toList :=
    ⟨"sl ".toList, " 2 %".toList, [], ⟨by decide, by decide, Or.inl rfl, rfl⟩, by decide,
      by decide, by decide⟩
  have htoken : argumentEntries "SOL, token=ETH, BONK".toList =
      ["SOL".toList] ++ "token=ETH".toList :: ["BONK".toList] := by decide +kernel
  obtain ⟨-, -, hreorder⟩ := parameters_exact "SOL, qty=1 = x , sl = 2 %".toList
  obtain ⟨hvalue, -, -⟩ := parameters_exact "SOL, token=ETH, BONK".toList
  constructor
  · apply hreorder
    · rw [hfirst, hsecond]
      decide
    · have hapart {entry : List Char} (h : '=' ∈ entry) : Apart "SOL".toList entry :=
        ⟨Or.inr h, fun _ _ _ hpair => absurd hpair.mem (by decide)⟩
      have hnames : Apart "qty=1 = x".toList "sl = 2 %".toList := by
        refine ⟨Or.inl (by decide), ?_⟩
        intro key value value' hpair hpair'
        obtain ⟨rfl, -⟩ := hpair.unique (by decide) (by decide) hqty
        obtain ⟨hkey, -⟩ := hpair'.unique (by decide) (by decide) hsl
        exact absurd hkey (by decide)
      rw [hfirst, List.pairwise_cons, List.pairwise_pair]
      refine ⟨?_, hnames⟩
      intro entry hentry
      rcases List.mem_pair.mp hentry with rfl | rfl
      · exact hapart hqty.mem
      · exact hapart hsl.mem
  · rw [hvalue]
    left
    refine ⟨"ETH".toList, ⟨["SOL".toList], "token=ETH".toList, ["BONK".toList], htoken, ?_, ?_⟩,
      Parameter.parse_eq_iff.mp (by decide +kernel)⟩
    · exact ⟨"token".toList, "ETH".toList, [], ⟨by decide, by decide, Or.inl rfl, rfl⟩, by decide,
        by decide, by decide⟩
    · intro entry hentry value hpair
      obtain rfl := List.mem_singleton.mp hentry
      exact absurd hpair.mem (by decide)

end TradingRules.Action
