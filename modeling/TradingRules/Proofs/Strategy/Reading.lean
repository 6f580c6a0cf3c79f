/-
# What a strategy is read as

A source is accepted exactly if a complete call of `strategy` stands somewhere in it, it has a layout,
and the condition of every segment is accepted. The strategy is then named by the leftmost such call
and has one rule for each segment, in their order. The scan for blocks ends on every source.
-/
import Mathlib.Data.List.Forall2
import TradingRules.Proofs.Condition.Clause
import TradingRules.Proofs.Strategy.Layout

namespace TradingRules.Strategy

open TradingRules.Text

/-! ## The name -/

/-- A complete call of `strategy` on a name begins a text. -/
def NameAt (name text : List Char) : Prop :=
  ∃ rest, IsQuotedCall "strategy".toList name rest text

/-- The name in the leftmost complete call of `strategy` in a source. -/
def IsFirstName (source name : List Char) : Prop :=
  ∃ before after, source = before ++ after ∧ NameAt name after ∧
    ∀ s, s <:+ before → s ≠ [] → ∀ name', ¬ NameAt name' (s ++ after)

/-- A name is read exactly off the texts that begin with a call. -/
theorem nameAt_iff {name text : List Char} :
    (quotedCall "strategy".toList text).map (·.1) = some name ↔ NameAt name text := by
  rw [Option.map_eq_some_iff]
  constructor
  · rintro ⟨⟨name', rest⟩, hread, heq⟩
    cases heq
    exact ⟨rest, quotedCall_eq_some_iff.mp hread⟩
  · rintro ⟨rest, hcall⟩
    exact ⟨(name, rest), quotedCall_eq_some_iff.mpr hcall, rfl⟩

/-- The name that is found is the leftmost one. -/
theorem findName_eq_some_iff {source name : List Char} :
    findName source = some name ↔ IsFirstName source name := by
  rw [findName, firstAt_eq_some_iff]
  simp only [nameAt_iff, Option.eq_none_iff_forall_ne_some, ne_eq]
  rfl

/-- A name is found if a call stands anywhere. -/
theorem exists_findName_iff {source : List Char} :
    (∃ name, findName source = some name) ↔
      ∃ before after name, source = before ++ after ∧ NameAt name after := by
  unfold findName
  rw [exists_firstAt_iff]
  simp only [nameAt_iff]

/-! ## The rules -/

/-- The rule that a segment stands for. -/
def Segment.IsReadAs (segment : Segment) (rule : Rule) : Prop :=
  Condition.parse segment.condition = .ok rule.condition ∧
    rule.actions = Action.parse segment.body

/-- A block is read as the rule that its segment stands for. -/
theorem rule_block_eq_ok_iff {segment : Segment} {rule : Rule} :
    segment.block.rule = .ok rule ↔ segment.IsReadAs rule := by
  have hcondition := Condition.parse_trim segment.condition
  have hbody := Action.parse_trim segment.body
  unfold Block.rule Segment.IsReadAs Segment.block
  rw [hcondition, hbody]
  cases hparse : Condition.parse segment.condition with
  | error e =>
    constructor
    · intro h
      cases h
    · rintro ⟨h, -⟩
      cases h
  | ok c =>
    constructor
    · intro h
      cases h
      exact ⟨rfl, rfl⟩
    · rintro ⟨h, hactions⟩
      cases h
      cases rule
      cases hactions
      rfl

/-- The rules are those that the segments stand for, one for each and in their order. -/
theorem readRules_eq_ok_iff {segments : List Segment} {rules : List Rule} :
    readRules (segments.map Segment.block) = .ok rules ↔
      List.Forall₂ Segment.IsReadAs segments rules := by
  induction segments generalizing rules with
  | nil =>
    rw [List.forall₂_nil_left_iff]
    constructor
    · intro h
      cases h
      rfl
    · rintro rfl
      rfl
  | cons segment segments ih =>
    rw [List.map_cons, readRules, List.forall₂_cons_left_iff]
    constructor
    · intro h
      obtain ⟨rule, hrule, h⟩ := bind_eq_ok_iff.mp h
      obtain ⟨more, hmore, h⟩ := bind_eq_ok_iff.mp h
      cases h
      exact ⟨rule, more, rule_block_eq_ok_iff.mp hrule, ih.mp hmore, rfl⟩
    · rintro ⟨rule, more, hrule, hmore, rfl⟩
      rw [rule_block_eq_ok_iff.mpr hrule, ih.mpr hmore]
      rfl

/-- Segments stand for rules exactly if each of their conditions is accepted. -/
theorem exists_forall₂_isReadAs_iff {segments : List Segment} :
    (∃ rules, List.Forall₂ Segment.IsReadAs segments rules) ↔
      ∀ segment ∈ segments, ∃ c, Condition.parse segment.condition = .ok c := by
  induction segments with
  | nil =>
    constructor
    · intro _ segment h
      cases h
    · intro _
      exact ⟨[], .nil⟩
  | cons segment segments ih =>
    rw [List.forall_mem_cons, ← ih]
    constructor
    · rintro ⟨rules, hrules⟩
      cases hrules with
      | cons hrule hmore => exact ⟨⟨_, hrule.1⟩, _, hmore⟩
    · rintro ⟨⟨c, hc⟩, more, hmore⟩
      exact ⟨⟨c, Action.parse segment.body⟩ :: more, .cons ⟨hc, rfl⟩ hmore⟩

/-! ## The strategy -/

/-- A source is read as a strategy exactly if it has the name and the rules that the leftmost call
and the layout of the source give it. -/
theorem parse_eq_ok_iff {source : String} {s : Strategy} :
    parse source = .ok s ↔
      ∃ name segments, IsFirstName source.toList name ∧ Layout [] source.toList segments ∧
        s.name = String.ofList name ∧ List.Forall₂ Segment.IsReadAs segments s.rules := by
  unfold parse parseChars
  constructor
  · intro h
    split at h
    · cases h
    · rename_i name hname
      obtain ⟨blocks, hblocks, h⟩ := bind_eq_ok_iff.mp h
      obtain ⟨rules, hrules, h⟩ := bind_eq_ok_iff.mp h
      cases h
      obtain ⟨segments, hlayout, rfl⟩ := (cutBlocks_eq_ok_iff [] rfl).mp hblocks
      exact ⟨name, segments, findName_eq_some_iff.mp hname, hlayout, rfl,
        readRules_eq_ok_iff.mp hrules⟩
  · rintro ⟨name, segments, hname, hlayout, hs, hrules⟩
    have hblocks := (cutBlocks_eq_ok_iff [] rfl).mpr ⟨segments, hlayout, rfl⟩
    rw [findName_eq_some_iff.mpr hname]
    show (cutBlocks source.toList >>= fun blocks => _) = _
    rw [hblocks]
    show (readRules (segments.map Segment.block) >>= fun rules => _) = _
    rw [readRules_eq_ok_iff.mpr hrules]
    cases s
    cases hs
    rfl

/-- What is left of a text behind its first block, from where the scan goes on. -/
def IsLeftOf (rest text : List Char) : Prop :=
  ∃ start b, nextIf false text = some start ∧ cutBlock start = .ok (b, rest)

/-- The scan goes on with less text, so it ends. -/
theorem wellFounded_isLeftOf : WellFounded IsLeftOf := by
  refine Subrelation.wf ?_ (measure List.length).wf
  rintro rest text ⟨start, b, hstart, hcut⟩
  have := length_nextIf_le hstart
  have := length_cutBlock_le hcut
  show rest.length < text.length
  omega

/-- A source is accepted exactly if a call of `strategy` stands somewhere in it, it has a layout and
the condition of every segment is accepted. The strategy is then named by the leftmost call, its
rules are those of the segments, one for each in their order, and there is no other layout. The scan
ends on every source. -/
theorem parse_exact (source : String) :
    ((∃ s, parse source = .ok s) ↔
      (∃ before after name, source.toList = before ++ after ∧ NameAt name after) ∧
      ∃ segments, Layout [] source.toList segments ∧
        ∀ segment ∈ segments, ∃ c, Condition.parse segment.condition = .ok c) ∧
    (∀ s, parse source = .ok s →
      ∃ name segments, IsFirstName source.toList name ∧ s.name = String.ofList name ∧
        (∀ segments', Layout [] source.toList segments' ↔ segments' = segments) ∧
        List.Forall₂ Segment.IsReadAs segments s.rules) ∧
    Acc IsLeftOf source.toList := by
  refine ⟨?_, ?_, wellFounded_isLeftOf.apply _⟩
  · rw [← exists_findName_iff]
    constructor
    · rintro ⟨s, h⟩
      obtain ⟨name, segments, hname, hlayout, -, hrules⟩ := parse_eq_ok_iff.mp h
      refine ⟨⟨name, findName_eq_some_iff.mpr hname⟩, segments, hlayout, ?_⟩
      exact exists_forall₂_isReadAs_iff.mp ⟨s.rules, hrules⟩
    · rintro ⟨⟨name, hname⟩, segments, hlayout, hconditions⟩
      obtain ⟨rules, hrules⟩ := exists_forall₂_isReadAs_iff.mpr hconditions
      exact ⟨⟨String.ofList name, rules⟩, parse_eq_ok_iff.mpr
        ⟨name, segments, findName_eq_some_iff.mp hname, hlayout, rfl, hrules⟩⟩
  · intro s h
    obtain ⟨name, segments, hname, hlayout, hs, hrules⟩ := parse_eq_ok_iff.mp h
    refine ⟨name, segments, hname, hs, fun segments' => ?_, hrules⟩
    constructor
    · intro hlayout'
      exact hlayout'.unique hlayout
    · rintro rfl
      exact hlayout

end TradingRules.Strategy
