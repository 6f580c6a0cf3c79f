/-
# The layout of a strategy

A strategy is read exactly off the texts with a certain layout: a gap, a block, a gap, a block and so
on to a last gap. A block begins at the first `if` that stands alone behind the previous block, its
condition runs to the first opening brace and its body to the first closing one behind that.

Whether an `if` stands alone depends on the character in front of it, so the layout of a text is
described together with the text before it. The reader goes on behind a block without looking back;
that is sound since a block ends with a brace, which is no word character.
-/
import TradingRules.Proofs.Action.Call
import TradingRules.Proofs.Except
import TradingRules.Strategy.Parser

namespace TradingRules.Strategy

open TradingRules.Text

/-! ## Words that stand alone -/

/-- Whether a text ends with a word character. -/
def endsInWord (text : List Char) : Bool :=
  text.getLast?.any isWordChar

/-- A text begins with the word `if` and a blank, and no word character stands before it. -/
def IfAt (before text : List Char) : Prop :=
  endsInWord before = false ∧ ∃ c rest, isBlank c = true ∧ text = 'i' :: 'f' :: c :: rest

theorem IfAt.exists_eq {before text : List Char} (h : IfAt before text) :
    ∃ rest, text = 'i' :: 'f' :: rest := by
  obtain ⟨-, c, rest, -, rfl⟩ := h
  exact ⟨c :: rest, rfl⟩

theorem endsInWord_concat (text : List Char) (c : Char) :
    endsInWord (text ++ [c]) = isWordChar c := by
  rw [endsInWord, List.getLast?_concat, Option.any_some]

/-- The word `if` is read exactly off the texts that begin with it and a blank. -/
theorem afterIf_eq_some_iff {text after : List Char} :
    afterIf text = some after ↔
      text = 'i' :: 'f' :: after ∧ ∃ c rest, isBlank c = true ∧ after = c :: rest := by
  unfold afterIf
  constructor
  · intro h
    split at h
    · rename_i c rest hword
      split_ifs at h with hblank
      cases h
      exact ⟨afterWord_eq_some_iff.mp hword, c, rest, hblank, rfl⟩
    · cases h
  · rintro ⟨rfl, c, rest, hblank, rfl⟩
    have hword : afterWord "if".toList ('i' :: 'f' :: c :: rest) = some (c :: rest) :=
      afterWord_eq_some_iff.mpr rfl
    rw [hword]
    exact if_pos hblank

/-- An `if` is there exactly where it is read and no word character stands before. -/
theorem ifAt_iff {before text : List Char} :
    IfAt before text ↔ endsInWord before = false ∧ ∃ after, afterIf text = some after := by
  refine and_congr_right fun _ => ?_
  constructor
  · rintro ⟨c, rest, hblank, rfl⟩
    exact ⟨c :: rest, afterIf_eq_some_iff.mpr ⟨rfl, c, rest, hblank, rfl⟩⟩
  · rintro ⟨after, h⟩
    obtain ⟨rfl, c, rest, hblank, rfl⟩ := afterIf_eq_some_iff.mp h
    exact ⟨c, rest, hblank, rfl⟩

/-- A gap between two texts in which no `if` stands alone. -/
def NoIfIn (before gap after : List Char) : Prop :=
  ∀ front back, gap = front ++ back → back ≠ [] → ¬ IfAt (before ++ front) (back ++ after)

theorem noIfIn_nil (before after : List Char) : NoIfIn before [] after := by
  intro front back hgap hback
  rw [eq_comm, List.append_eq_nil_iff] at hgap
  exact absurd hgap.2 hback

/-- No `if` stands alone in a gap if none does at its first character and none in the others. -/
theorem noIfIn_cons {before gap after : List Char} {c : Char} :
    NoIfIn before (c :: gap) after ↔
      ¬ IfAt before (c :: (gap ++ after)) ∧ NoIfIn (before ++ [c]) gap after := by
  constructor
  · intro h
    constructor
    · have := h [] (c :: gap) rfl (List.cons_ne_nil _ _)
      rwa [List.append_nil] at this
    · intro front back hgap hback
      have := h (c :: front) back (by rw [hgap]; rfl) hback
      rwa [← List.singleton_append, ← List.append_assoc] at this
  · rintro ⟨hhere, hlater⟩ front back hgap hback
    cases front with
    | nil =>
      rw [List.nil_append] at hgap
      rw [List.append_nil, ← hgap]
      exact hhere
    | cons c' front =>
      cases hgap
      have := hlater front back rfl hback
      rwa [← List.singleton_append, ← List.append_assoc]

/-! ## The next block -/

/-- What is read at a character that is no standing `if`: the search goes on behind it. -/
theorem nextIf_cons_of_not_ifAt {before rest : List Char} {c : Char}
    (h : ¬ IfAt before (c :: rest)) :
    nextIf (endsInWord before) (c :: rest) = nextIf (endsInWord (before ++ [c])) rest := by
  rw [nextIf, endsInWord_concat]
  split
  · rename_i after hafter
    by_cases hword : endsInWord before = true
    · rw [if_pos hword]
    · exact absurd (ifAt_iff.mpr ⟨Bool.eq_false_iff.mpr hword, after, hafter⟩) h
  · rfl

/-- What is read at a standing `if`. -/
theorem nextIf_of_ifAt {before rest : List Char} (h : IfAt before ('i' :: 'f' :: rest)) :
    nextIf (endsInWord before) ('i' :: 'f' :: rest) = some rest := by
  obtain ⟨hword, c, tail, hblank, htext⟩ := h
  cases htext
  have hafter : afterIf ('i' :: 'f' :: c :: tail) = some (c :: tail) :=
    afterIf_eq_some_iff.mpr ⟨rfl, c, tail, hblank, rfl⟩
  rw [nextIf, hafter, hword]
  rfl

/-- The search for an `if` finds the first one that stands alone. -/
theorem nextIf_eq_some_iff {before text after : List Char} :
    nextIf (endsInWord before) text = some after ↔
      ∃ gap, text = gap ++ 'i' :: 'f' :: after ∧ IfAt (before ++ gap) ('i' :: 'f' :: after) ∧
        NoIfIn before gap ('i' :: 'f' :: after) := by
  constructor
  · intro h
    induction text generalizing before with
    | nil => cases h
    | cons c text ih =>
      by_cases hhere : IfAt before (c :: text)
      · obtain ⟨rest, htext⟩ := hhere.exists_eq
        cases htext
        rw [nextIf_of_ifAt hhere] at h
        cases h
        exact ⟨[], rfl, by rwa [List.append_nil], noIfIn_nil _ _⟩
      · rw [nextIf_cons_of_not_ifAt hhere] at h
        obtain ⟨gap, rfl, hif, hgap⟩ := ih h
        refine ⟨c :: gap, rfl, ?_, noIfIn_cons.mpr ⟨hhere, hgap⟩⟩
        rwa [← List.singleton_append, ← List.append_assoc]
  · rintro ⟨gap, rfl, hif, hgap⟩
    induction gap generalizing before with
    | nil =>
      rw [List.append_nil] at hif
      exact nextIf_of_ifAt hif
    | cons c gap ih =>
      obtain ⟨hhere, hlater⟩ := noIfIn_cons.mp hgap
      rw [List.cons_append, nextIf_cons_of_not_ifAt hhere]
      refine ih ?_ hlater
      rwa [List.append_assoc, List.singleton_append]

/-- The search for an `if` fails exactly if none stands alone. -/
theorem nextIf_eq_none_iff {before text : List Char} :
    nextIf (endsInWord before) text = none ↔ NoIfIn before text [] := by
  induction text generalizing before with
  | nil => exact ⟨fun _ => noIfIn_nil _ _, fun _ => rfl⟩
  | cons c text ih =>
    rw [noIfIn_cons, List.append_nil]
    by_cases hhere : IfAt before (c :: text)
    · obtain ⟨rest, htext⟩ := hhere.exists_eq
      cases htext
      rw [nextIf_of_ifAt hhere]
      exact ⟨fun h => (nomatch h), fun h => absurd hhere h.1⟩
    · rw [nextIf_cons_of_not_ifAt hhere, ih]
      exact ⟨fun h => ⟨hhere, h⟩, And.right⟩

/-- What a block is cut from: the text between its `if` and the opening brace, and the text between
the braces. -/
structure Segment where
  condition : List Char
  body : List Char

/-- The block that is cut from a segment. -/
def Segment.block (segment : Segment) : Block :=
  ⟨trim segment.condition, trim segment.body⟩

/-- The text of a segment from behind its `if` to its closing brace. -/
def Segment.text (segment : Segment) : List Char :=
  segment.condition ++ '\x7b' :: (segment.body ++ ['\x7d'])

/-- The condition of a segment runs to the first opening brace and its body to the first closing one
behind that; a body holds more than blanks. -/
structure Segment.WellFormed (segment : Segment) : Prop where
  condition_open : '\x7b' ∉ segment.condition
  body_closed : '\x7d' ∉ segment.body
  body_filled : ¬ AllBlank segment.body

/-- Reading up to the opening brace takes the condition of a segment. -/
theorem Segment.WellFormed.takeUntil_text {segment : Segment} (h : segment.WellFormed)
    (rest : List Char) : takeUntil (· == '\x7b') (segment.text ++ rest) =
      some (segment.condition, '\x7b' :: (segment.body ++ '\x7d' :: rest)) := by
  refine takeUntil_beq_eq_some_iff.mpr ⟨_, rfl, h.condition_open, ?_⟩
  simp only [Segment.text, List.append_assoc, List.cons_append, List.nil_append]

/-- Reading up to the closing brace takes the body of a segment. -/
theorem Segment.WellFormed.takeUntil_body {segment : Segment} (h : segment.WellFormed)
    (rest : List Char) : takeUntil (· == '\x7d') (segment.body ++ '\x7d' :: rest) =
      some (segment.body, '\x7d' :: rest) :=
  takeUntil_beq_eq_some_iff.mpr ⟨rest, rfl, h.body_closed, rfl⟩

/-- A block is cut exactly off the texts that begin with a well-formed segment. -/
theorem cutBlock_eq_ok_iff {text rest : List Char} {b : Block} :
    cutBlock text = .ok (b, rest) ↔
      ∃ segment : Segment, segment.WellFormed ∧ text = segment.text ++ rest ∧ b = segment.block := by
  unfold cutBlock
  constructor
  · intro h
    split at h
    · cases h
    · rename_i condition opening hopen
      split at h
      · cases h
      · rename_i body closing hclose
        split_ifs at h with hempty
        cases h
        obtain ⟨inner, rfl, hcondition, rfl⟩ := takeUntil_beq_eq_some_iff.mp hopen
        obtain ⟨tail, rfl, hbody, hinner⟩ := takeUntil_beq_eq_some_iff.mp hclose
        rw [List.isEmpty_iff, trim_eq_nil_iff] at hempty
        refine ⟨⟨condition, body⟩, ⟨hcondition, hbody, hempty⟩, ?_, rfl⟩
        rw [List.drop_one, List.tail_cons] at hinner
        rw [hinner]
        simp only [Segment.text, List.append_assoc, List.cons_append, List.nil_append]
        rfl
  · rintro ⟨segment, hsegment, rfl, rfl⟩
    simp only [hsegment.takeUntil_text, List.drop_one, List.tail_cons, hsegment.takeUntil_body]
    rw [if_neg]
    · rfl
    · rw [List.isEmpty_iff, trim_eq_nil_iff]
      exact hsegment.body_filled

/-- A segment can be told from what follows it. -/
theorem Segment.text_append_inj {segment segment' : Segment} {rest rest' : List Char}
    (h : segment.WellFormed) (h' : segment'.WellFormed)
    (heq : segment.text ++ rest = segment'.text ++ rest') : segment = segment' ∧ rest = rest' := by
  have hcondition := h'.takeUntil_text rest'
  rw [← heq, h.takeUntil_text] at hcondition
  injection hcondition with hcondition
  injection hcondition with hcondition hinner
  injection hinner with _ hinner
  have hbody := h'.takeUntil_body rest'
  rw [← hinner, h.takeUntil_body] at hbody
  injection hbody with hbody
  injection hbody with hbody hrest
  injection hrest with _ hrest
  refine ⟨?_, hrest⟩
  cases segment
  cases segment'
  cases hcondition
  cases hbody
  rfl

/-! ## Layouts -/

/-- A text that stands behind another one is laid out in segments, in their order: each begins at the
first `if` that stands alone behind the previous one, and none stands alone behind the last. -/
inductive Layout : List Char → List Char → List Segment → Prop
  | done {before gap : List Char} (hgap : NoIfIn before gap []) : Layout before gap []
  | block {before gap rest : List Char} {segment : Segment} {segments : List Segment}
      (hgap : NoIfIn before gap ('i' :: 'f' :: (segment.text ++ rest)))
      (hif : IfAt (before ++ gap) ('i' :: 'f' :: (segment.text ++ rest)))
      (hsegment : segment.WellFormed)
      (hrest : Layout (before ++ gap ++ 'i' :: 'f' :: segment.text) rest segments) :
      Layout before (gap ++ 'i' :: 'f' :: (segment.text ++ rest)) (segment :: segments)

/-- A segment ends with a brace, which is no word character. -/
theorem endsInWord_segment (before : List Char) (segment : Segment) :
    endsInWord (before ++ 'i' :: 'f' :: segment.text) = false := by
  have hsplit : before ++ 'i' :: 'f' :: segment.text =
      (before ++ 'i' :: 'f' :: (segment.condition ++ '\x7b' :: segment.body)) ++ ['\x7d'] := by
    simp only [Segment.text, List.append_assoc, List.cons_append]
  rw [hsplit, endsInWord_concat]
  decide +kernel

theorem cutBlocks_of_nextIf_eq_none {text : List Char} (h : nextIf false text = none) :
    cutBlocks text = .ok [] := by
  rw [cutBlocks]
  split
  · rfl
  · rename_i start hstart
    rw [h] at hstart
    cases hstart

theorem cutBlocks_of_cutBlock {text start rest : List Char} {b : Block}
    (hstart : nextIf false text = some start) (hcut : cutBlock start = .ok (b, rest)) :
    cutBlocks text = (cutBlocks rest).map (b :: ·) := by
  rw [cutBlocks]
  split
  · rename_i hnone
    rw [hstart] at hnone
    cases hnone
  · rename_i start' hstart'
    rw [hstart] at hstart'
    cases hstart'
    split
    · rename_i e herror
      rw [hcut] at herror
      cases herror
    · rename_i b' rest' hok
      rw [hcut] at hok
      cases hok
      cases cutBlocks rest <;> rfl

/-- The blocks of a text are those of its segments, if no word character stands before it. -/
theorem cutBlocks_eq_ok_iff {text : List Char} {blocks : List Block} (before : List Char)
    (hword : endsInWord before = false) :
    cutBlocks text = .ok blocks ↔
      ∃ segments, Layout before text segments ∧ blocks = segments.map Segment.block := by
  constructor
  · intro h
    induction hlength : text.length using Nat.strongRecOn generalizing before text blocks with
    | _ n ih =>
      rw [cutBlocks] at h
      split at h
      · rename_i hnone
        cases h
        rw [← hword, nextIf_eq_none_iff] at hnone
        exact ⟨[], .done hnone, rfl⟩
      · rename_i start hstart
        split at h
        · cases h
        · rename_i b rest hcut
          have hshorter : rest.length < n := by
            have := length_nextIf_le hstart
            have := length_cutBlock_le hcut
            omega
          obtain ⟨more, hmore, h⟩ := bind_eq_ok_iff.mp h
          cases h
          rw [← hword, nextIf_eq_some_iff] at hstart
          obtain ⟨gap, rfl, hif, hgap⟩ := hstart
          obtain ⟨segment, hsegment, rfl, rfl⟩ := cutBlock_eq_ok_iff.mp hcut
          -- the search goes on behind a brace, as it would if it looked back
          obtain ⟨segments, hrest, rfl⟩ :=
            ih rest.length hshorter _ (endsInWord_segment (before ++ gap) segment) hmore rfl
          exact ⟨segment :: segments, .block hgap hif hsegment hrest, rfl⟩
  · rintro ⟨segments, hlayout, rfl⟩
    induction hlayout with
    | done hgap =>
      rw [← nextIf_eq_none_iff, hword] at hgap
      exact cutBlocks_of_nextIf_eq_none hgap
    | @block before gap rest segment segments hgap hif hsegment hrest ih =>
      have hnext := nextIf_eq_some_iff.mpr ⟨gap, rfl, hif, hgap⟩
      rw [hword] at hnext
      have hcut : cutBlock (segment.text ++ rest) = .ok (segment.block, rest) :=
        cutBlock_eq_ok_iff.mpr ⟨segment, hsegment, rfl, rfl⟩
      rw [cutBlocks_of_cutBlock hnext hcut, ih (endsInWord_segment _ segment)]
      rfl

/-- A text is laid out in one way only. -/
theorem Layout.unique {before text : List Char} {segments segments' : List Segment}
    (h : Layout before text segments) (h' : Layout before text segments') :
    segments = segments' := by
  induction h generalizing segments' with
  | done hgap =>
    rw [← nextIf_eq_none_iff] at hgap
    cases h' with
    | done _ => rfl
    | block hgap' hif' _ _ =>
      rw [nextIf_eq_some_iff.mpr ⟨_, rfl, hif', hgap'⟩] at hgap
      cases hgap
  | @block before gap rest segment segments hgap hif hsegment _ ih =>
    have hnext := nextIf_eq_some_iff.mpr ⟨gap, rfl, hif, hgap⟩
    generalize htext : gap ++ 'i' :: 'f' :: (segment.text ++ rest) = text at h' hnext
    cases h' with
    | done hgap' =>
      rw [nextIf_eq_none_iff.mpr hgap'] at hnext
      cases hnext
    | @block _ gap' rest' segment' segments' hgap' hif' hsegment' hrest' =>
      -- both layouts begin at the `if` that the search finds
      rw [nextIf_eq_some_iff.mpr ⟨gap', rfl, hif', hgap'⟩] at hnext
      injection hnext with hnext
      obtain ⟨rfl, rfl⟩ := Segment.text_append_inj hsegment hsegment' hnext.symm
      have hgaps : gap = gap' := List.append_cancel_right htext
      subst hgaps
      rw [ih hrest']

end TradingRules.Strategy
