/-
# Which fault is reported

All blocks of a source are cut out before the first condition is read. So a fault of a condition is
reported only if the blocks behind it can be cut out as well: an `if` without braces, or with a blank
body, at the very end of a source hides every fault of a condition in front of it. Blocks behind a
fault that can be cut out do no harm, whatever their conditions say, and nothing hides a blank body.

The source is cut at the end of a complete block. Such a block ends with a brace, so the search for
the next one does not depend on what stands in front of the cut.
-/
import TradingRules.Proofs.Condition.Operands
import TradingRules.Proofs.Strategy.Renaming

namespace TradingRules

open TradingRules.Text

/-! ## Faults of blocks and faults of conditions -/

/-- A fault is one of the braces and the bodies of blocks, and not of a condition. -/
def SyntaxError.IsOfBlock : SyntaxError → Prop
  | .missingOpenBrace | .missingCloseBrace | .emptyBlock _ => True
  | _ => False

theorem SyntaxError.IsOfLeaf.not_isOfBlock {e : SyntaxError} (h : e.IsOfLeaf) : ¬ e.IsOfBlock := by
  intro hblock
  cases e with
  | missingOpenBrace => exact h
  | missingCloseBrace => exact h
  | emptyBlock condition => exact h
  | _ => exact hblock

/-- What is wrong with a condition is no fault of a block. -/
theorem Condition.not_isOfBlock_of_parse {text : List Char} {e : SyntaxError}
    (h : parse text = .error e) : ¬ e.IsOfBlock := by
  cases isFaultOf_of_parseWithin (isTrimmed_trim text) h with
  | nesting => exact id
  | empty hnil => exact id
  | leaf hleaf => exact hleaf.not_isOfBlock

namespace Strategy

/-- What is wrong with the conditions of blocks is no fault of a block. -/
theorem not_isOfBlock_of_readRules {blocks : List Block} {e : SyntaxError}
    (h : readRules blocks = .error e) : ¬ e.IsOfBlock := by
  induction blocks with
  | nil => cases h
  | cons b rest ih =>
    rcases bind_eq_error_iff.mp h with hrule | ⟨_, -, h⟩
    · rcases bind_eq_error_iff.mp hrule with hcondition | ⟨_, -, hrule⟩
      · exact Condition.not_isOfBlock_of_parse hcondition
      · cases hrule
    · rcases bind_eq_error_iff.mp h with hmore | ⟨_, -, h⟩
      · exact ih hmore
      · cases h

theorem isOfBlock_of_cutBlock {text : List Char} {e : SyntaxError}
    (h : cutBlock text = .error e) : e.IsOfBlock := by
  unfold cutBlock at h
  split at h
  · cases h
    trivial
  · split at h
    · cases h
      trivial
    · split_ifs at h
      cases h
      trivial

/-- What is wrong when blocks are cut out is a fault of a block. -/
theorem isOfBlock_of_cutBlocks {text : List Char} {e : SyntaxError}
    (h : cutBlocks text = .error e) : e.IsOfBlock := by
  induction text using cutBlocks.induct with
  | case1 text hnone =>
    rw [cutBlocks_of_nextIf_eq_none hnone] at h
    cases h
  | case2 text start hstart e' hcut =>
    rw [cutBlocks_of_error hstart hcut] at h
    cases h
    exact isOfBlock_of_cutBlock hcut
  | case3 text start hstart b rest hcut ih =>
    rw [cutBlocks_of_cutBlock hstart hcut] at h
    cases hrest : cutBlocks rest with
    | error e' =>
      rw [hrest] at h
      cases h
      exact ih hrest
    | ok more =>
      rw [hrest] at h
      cases h

/-! ## What stands behind a text -/

/-- Whether a text begins with the word `if` and a blank is known from its first three characters. -/
theorem afterIf_append {text : List Char} (hlength : 3 ≤ text.length) (back : List Char) :
    afterIf (text ++ back) = (afterIf text).map (· ++ back) := by
  match text with
  | c₁ :: c₂ :: c₃ :: text =>
    ext after
    rw [afterIf_eq_some_iff, Option.map_eq_some_iff]
    simp only [afterIf_eq_some_iff]
    constructor
    · rintro ⟨htext, c, rest, hblank, rfl⟩
      cases htext
      exact ⟨c₃ :: text, ⟨rfl, c₃, text, hblank, rfl⟩, rfl⟩
    · rintro ⟨_, ⟨htext, c, rest, hblank, rfl⟩, rfl⟩
      cases htext
      exact ⟨rfl, c₃, text ++ back, hblank, rfl⟩

/-- A standing `if` that is found is found whatever stands behind the text. -/
theorem nextIf_append {inWord : Bool} {text after : List Char} (back : List Char)
    (h : nextIf inWord text = some after) : nextIf inWord (text ++ back) = some (after ++ back) := by
  induction text generalizing inWord with
  | nil => cases h
  | cons c text ih =>
    rw [nextIf] at h
    have hlength : 3 ≤ (c :: text).length := by
      split at h
      · rename_i here hread
        obtain ⟨htext, c', rest, -, rfl⟩ := afterIf_eq_some_iff.mp hread
        simp [htext]
      · have := length_nextIf_le h
        simp only [List.length_cons]
        omega
    have hread : afterIf (c :: (text ++ back)) = (afterIf (c :: text)).map (· ++ back) :=
      afterIf_append hlength back
    rw [List.cons_append, nextIf, hread]
    cases hhere : afterIf (c :: text) with
    | none =>
      rw [hhere] at h
      exact ih h
    | some here =>
      rw [hhere] at h
      cases inWord with
      | true => exact ih h
      | false =>
        cases h
        rfl

/-- A call that names a strategy does so whatever stands behind the text. -/
theorem NameAt.append {name text : List Char} (h : NameAt name text) (back : List Char) :
    NameAt name (text ++ back) := by
  obtain ⟨rest, ws₁, ws₂, ws₃, q, q', hws₁, hws₂, hws₃, hq, hq', hne, hname, rfl⟩ := h
  refine ⟨rest ++ back, ws₁, ws₂, ws₃, q, q', hws₁, hws₂, hws₃, hq, hq', hne, hname, ?_⟩
  simp only [List.append_assoc, List.cons_append]

/-- The first fault of blocks is found whatever blocks follow. -/
theorem readRules_append_of_error {blocks : List Block} {e : SyntaxError}
    (h : readRules blocks = .error e) (more : List Block) :
    readRules (blocks ++ more) = .error e := by
  induction blocks with
  | nil => cases h
  | cons b rest ih =>
    rw [List.cons_append, readRules]
    rcases bind_eq_error_iff.mp h with hrule | ⟨rule, hrule, h⟩
    · rw [hrule]
      rfl
    · rcases bind_eq_error_iff.mp h with hmore | ⟨_, -, h⟩
      · rw [hrule, ih hmore]
        rfl
      · cases h

/-! ## Texts that end with a block -/

/-- The condition of a segment runs to the first opening brace and its body to the first closing one
behind that. The body may be blank. -/
structure Segment.Closed (segment : Segment) : Prop where
  condition_open : '\x7b' ∉ segment.condition
  body_closed : '\x7d' ∉ segment.body

/-- A text that stands behind another one ends with a complete block, if it has any: each segment begins
at the first `if` that stands alone behind the previous one, and nothing stands behind the last. -/
inductive EndsInBlock : List Char → List Char → List Segment → Prop
  | done {before : List Char} : EndsInBlock before [] []
  | block {before gap rest : List Char} {segment : Segment} {segments : List Segment}
      (hgap : NoIfIn before gap ('i' :: 'f' :: (segment.text ++ rest)))
      (hif : IfAt (before ++ gap) ('i' :: 'f' :: (segment.text ++ rest)))
      (hsegment : segment.Closed)
      (hrest : EndsInBlock (before ++ gap ++ 'i' :: 'f' :: segment.text) rest segments) :
      EndsInBlock before (gap ++ 'i' :: 'f' :: (segment.text ++ rest)) (segment :: segments)

/-- A text whose first standing `if` begins its only segment. -/
theorem endsInBlock_singleton {text : List Char} {segment : Segment}
    (hnext : nextIf false text = some segment.text) (hsegment : segment.Closed) :
    EndsInBlock [] text [segment] := by
  have hfound : nextIf (endsInWord []) text = some (segment.text ++ []) := by
    rw [List.append_nil]
    exact hnext
  obtain ⟨gap, rfl, hif, hgap⟩ := nextIf_eq_some_iff.mp hfound
  exact .block hgap hif hsegment .done

/-- A text that ends with a block does not end with a word character. -/
theorem EndsInBlock.endsInWord_append {before text : List Char} {segments : List Segment}
    (h : EndsInBlock before text segments) (hword : endsInWord before = false) :
    endsInWord (before ++ text) = false := by
  induction h with
  | done =>
    rw [List.append_nil]
    exact hword
  | @block before gap rest segment segments _ _ _ _ ih =>
    have hlast := ih (endsInWord_segment (before ++ gap) segment)
    simp only [List.append_assoc, List.cons_append] at hlast ⊢
    exact hlast

/-- A closed segment is cut off what begins with it, unless its body is blank. -/
theorem Segment.Closed.cutBlock_append {segment : Segment} (h : segment.Closed) (rest : List Char) :
    cutBlock (segment.text ++ rest) =
      if AllBlank segment.body then .error (.emptyBlock (String.ofList (trim segment.condition)))
      else .ok (segment.block, rest) := by
  by_cases hblank : AllBlank segment.body
  · have hopen : takeUntil (· == '\x7b') (segment.text ++ rest) =
        some (segment.condition, '\x7b' :: (segment.body ++ '\x7d' :: rest)) := by
      refine takeUntil_beq_eq_some_iff.mpr ⟨_, rfl, h.condition_open, ?_⟩
      simp only [Segment.text, List.append_assoc, List.cons_append, List.nil_append]
    have hclose : takeUntil (· == '\x7d') (segment.body ++ '\x7d' :: rest) =
        some (segment.body, '\x7d' :: rest) :=
      takeUntil_beq_eq_some_iff.mpr ⟨rest, rfl, h.body_closed, rfl⟩
    have hempty : (trim segment.body).isEmpty = true :=
      List.isEmpty_iff.mpr (trim_eq_nil_iff.mpr hblank)
    unfold cutBlock
    simp only [hopen, List.drop_one, List.tail_cons, hclose, hempty]
    rw [if_pos trivial, if_pos hblank]
  · rw [if_neg hblank]
    exact cutBlock_eq_ok_iff.mpr ⟨segment, ⟨h.condition_open, h.body_closed, hblank⟩, rfl, rfl⟩

/-- The next standing `if` of a text that ends with a block is the one in front of its first segment,
whatever stands behind the text. -/
theorem nextIf_segment_append {before gap rest : List Char} {segment : Segment}
    (hword : endsInWord before = false)
    (hgap : NoIfIn before gap ('i' :: 'f' :: (segment.text ++ rest)))
    (hif : IfAt (before ++ gap) ('i' :: 'f' :: (segment.text ++ rest))) (back : List Char) :
    nextIf false (gap ++ 'i' :: 'f' :: (segment.text ++ rest) ++ back) =
      some (segment.text ++ (rest ++ back)) := by
  have hnext := nextIf_eq_some_iff.mpr ⟨gap, rfl, hif, hgap⟩
  rw [hword] at hnext
  rw [nextIf_append back hnext, List.append_assoc]

/-- Behind a text that ends with a block the blocks are cut as if they stood alone. -/
theorem EndsInBlock.cutBlocks_append {before text : List Char} {segments : List Segment}
    (h : EndsInBlock before text segments) (hword : endsInWord before = false)
    (hfilled : ∀ segment ∈ segments, ¬ AllBlank segment.body) (back : List Char) :
    cutBlocks (text ++ back) = (cutBlocks back).map (segments.map Segment.block ++ ·) := by
  induction h with
  | done =>
    rw [List.nil_append]
    cases cutBlocks back <;> rfl
  | @block before gap rest segment segments hgap hif hsegment hrest ih =>
    obtain ⟨hbody, hmore⟩ := List.forall_mem_cons.mp hfilled
    have hnext := nextIf_segment_append hword hgap hif back
    have hcut := hsegment.cutBlock_append (rest ++ back)
    rw [if_neg hbody] at hcut
    rw [cutBlocks_of_cutBlock hnext hcut, ih (endsInWord_segment _ segment) hmore]
    cases cutBlocks back <;> rfl

/-- A blank body is found whatever stands behind the text. -/
theorem EndsInBlock.exists_cutBlocks_append_eq {before text : List Char} {segments : List Segment}
    (h : EndsInBlock before text segments) (hword : endsInWord before = false)
    (hblank : ∃ segment ∈ segments, AllBlank segment.body) :
    ∃ e, ∀ back, cutBlocks (text ++ back) = .error e := by
  induction h with
  | done =>
    obtain ⟨_, hmem, -⟩ := hblank
    cases hmem
  | @block before gap rest segment segments hgap hif hsegment hrest ih =>
    by_cases hbody : AllBlank segment.body
    · refine ⟨.emptyBlock (String.ofList (trim segment.condition)), fun back => ?_⟩
      apply cutBlocks_of_error (nextIf_segment_append hword hgap hif back)
      rw [hsegment.cutBlock_append, if_pos hbody]
    · obtain ⟨blank, hmem, hblank⟩ := hblank
      have hlater : ∃ segment ∈ segments, AllBlank segment.body := by
        rcases List.mem_cons.mp hmem with rfl | hmem
        · exact absurd hblank hbody
        · exact ⟨blank, hmem, hblank⟩
      obtain ⟨e, he⟩ := ih (endsInWord_segment _ segment) hlater
      refine ⟨e, fun back => ?_⟩
      have hcut := hsegment.cutBlock_append (rest ++ back)
      rw [if_neg hbody] at hcut
      rw [cutBlocks_of_cutBlock (nextIf_segment_append hword hgap hif back) hcut, he back]
      rfl

/-! ## The reported fault -/

/-- A source that names a strategy fails as the reading of its rules does. -/
theorem parse_eq_error_iff {source : String} {e : SyntaxError}
    (hname : ∃ before after name, source.toList = before ++ after ∧ NameAt name after) :
    parse source = .error e ↔ rulesIn source.toList = .error e := by
  obtain ⟨name, hfound⟩ := exists_findName_iff.mpr hname
  unfold parse parseChars rulesIn
  rw [hfound]
  show (cutBlocks source.toList >>= fun blocks => readRules blocks >>= fun rules => _) = _ ↔ _
  cases cutBlocks source.toList with
  | error e' =>
    show Except.error e' = _ ↔ Except.error e' = _
    rw [Except.error.injEq, Except.error.injEq]
  | ok blocks =>
    show (readRules blocks >>= fun rules => _) = _ ↔ readRules blocks = _
    cases readRules blocks with
    | error e' =>
      show Except.error e' = _ ↔ _
      rw [Except.error.injEq, Except.error.injEq]
    | ok rules => exact iff_of_false nofun nofun

/-- The rules of a source that ends with a block are read in front of those of what follows, unless the
blocks of what follows cannot be cut out. -/
theorem EndsInBlock.rulesIn_append {text : List Char} {segments : List Segment}
    (h : EndsInBlock [] text segments)
    (hfilled : ∀ segment ∈ segments, ¬ AllBlank segment.body) (back : List Char) :
    rulesIn (text ++ back) =
      (cutBlocks back >>= fun more => readRules (segments.map Segment.block ++ more)) := by
  rw [rulesIn, h.cutBlocks_append rfl hfilled]
  cases cutBlocks back <;> rfl

/-- A blank body is the fault in front of nothing as in front of any further text. -/
theorem EndsInBlock.rulesIn_append_of_blank {text : List Char} {segments : List Segment}
    (h : EndsInBlock [] text segments) (hblank : ∃ segment ∈ segments, AllBlank segment.body)
    (back : List Char) : rulesIn (text ++ back) = rulesIn text := by
  obtain ⟨e, he⟩ := h.exists_cutBlocks_append_eq rfl hblank
  have halone := he []
  rw [List.append_nil] at halone
  rw [rulesIn, rulesIn, he, halone]

/-- Without a blank body the rules of such a source are those of its segments. -/
theorem EndsInBlock.rulesIn_eq {text : List Char} {segments : List Segment}
    (h : EndsInBlock [] text segments)
    (hfilled : ∀ segment ∈ segments, ¬ AllBlank segment.body) :
    rulesIn text = readRules (segments.map Segment.block) := by
  have halone := h.rulesIn_append hfilled []
  rw [List.append_nil, cutBlocks_of_nextIf_eq_none rfl] at halone
  rw [halone]
  exact congrArg readRules (List.append_nil _)

/-- A fault of a condition is the fault in front of blocks that can be cut out. -/
theorem EndsInBlock.rulesIn_append_of_error {text : List Char} {segments : List Segment}
    {e : SyntaxError} (h : EndsInBlock [] text segments)
    (hfilled : ∀ segment ∈ segments, ¬ AllBlank segment.body) (hfault : rulesIn text = .error e)
    (back : List Char) : rulesIn (text ++ back) = (cutBlocks back >>= fun _ => .error e) := by
  rw [h.rulesIn_eq hfilled] at hfault
  rw [h.rulesIn_append hfilled]
  cases cutBlocks back with
  | error e' => rfl
  | ok more => exact readRules_append_of_error hfault more

/-- **Which fault is reported.** Let a source name a strategy and end with a complete block, and let it
have a fault. In front of any further text the same fault is reported exactly if it is a blank body or
the further text is laid out in complete blocks. Otherwise the first fault in the blocks of the further
text is reported in its place. -/
theorem diagnosis_exact {front : String} {segments : List Segment} {e : SyntaxError}
    (hname : ∃ before after name, front.toList = before ++ after ∧ NameAt name after)
    (hblocks : EndsInBlock [] front.toList segments) (hfault : parse front = .error e)
    (back : String) :
    (parse (front ++ back) = .error e ↔
      (∃ segment ∈ segments, AllBlank segment.body) ∨
        ∃ more, Layout front.toList back.toList more) ∧
    ((∀ segment ∈ segments, ¬ AllBlank segment.body) → ∀ e', cutBlocks back.toList = .error e' →
      parse (front ++ back) = .error e' ∧ e'.IsOfBlock ∧ e' ≠ e) := by
  have hname' : ∃ before after name,
      (front ++ back).toList = before ++ after ∧ NameAt name after := by
    obtain ⟨before, after, name, hfront, hname⟩ := hname
    refine ⟨before, after ++ back.toList, name, ?_, hname.append back.toList⟩
    rw [String.toList_append, hfront, List.append_assoc]
  have hword : endsInWord front.toList = false := hblocks.endsInWord_append rfl
  have hlaid : (∃ more, Layout front.toList back.toList more) ↔
      ∃ blocks, cutBlocks back.toList = .ok blocks := by
    simp only [cutBlocks_eq_ok_iff front.toList hword]
    exact ⟨fun ⟨more, h⟩ => ⟨_, more, h, rfl⟩, fun ⟨_, more, h, _⟩ => ⟨more, h⟩⟩
  rw [parse_eq_error_iff hname] at hfault
  simp only [parse_eq_error_iff hname', String.toList_append, hlaid]
  by_cases hblank : ∃ segment ∈ segments, AllBlank segment.body
  · rw [hblocks.rulesIn_append_of_blank hblank]
    refine ⟨iff_of_true hfault (Or.inl hblank), fun hfilled => ?_⟩
    obtain ⟨segment, hmem, hbody⟩ := hblank
    exact absurd hbody (hfilled segment hmem)
  · have hfilled : ∀ segment ∈ segments, ¬ AllBlank segment.body :=
      fun segment hmem hbody => hblank ⟨segment, hmem, hbody⟩
    rw [hblocks.rulesIn_append_of_error hfilled hfault]
    cases hcut : cutBlocks back.toList with
    | error e' =>
      -- a fault that hides another one is of the other kind
      have hne : e' ≠ e := by
        rintro rfl
        rw [hblocks.rulesIn_eq hfilled] at hfault
        exact not_isOfBlock_of_readRules hfault (isOfBlock_of_cutBlocks hcut)
      constructor
      · refine iff_of_false (fun h => hne (Except.error.inj h)) ?_
        rintro (h | ⟨_, h⟩)
        · exact hblank h
        · cases h
      · intro _ e'' h
        cases h
        exact ⟨rfl, isOfBlock_of_cutBlocks hcut, hne⟩
    | ok more =>
      constructor
      · exact iff_of_true rfl (Or.inr ⟨more, rfl⟩)
      · intro _ e'' h
        cases h

/-- A source that ends with a complete block whose condition has a fault. -/
def faultySource : String :=
  "strategy(\"Bad\") \x7b if foo > 1 \x7b buy(SOL) \x7d"

/-- What its block is cut from. -/
def faultySegment : Segment where
  condition := " foo > 1 ".toList
  body := " buy(SOL) ".toList

theorem nameAt_faultySource :
    ∃ before after name, faultySource.toList = before ++ after ∧ NameAt name after :=
  exists_findName_iff.mp ⟨"Bad".toList, by decide +kernel⟩

theorem endsInBlock_faultySource : EndsInBlock [] faultySource.toList [faultySegment] :=
  endsInBlock_singleton (by decide +kernel) ⟨by decide, by decide⟩

theorem parse_faultySource : parse faultySource = .error (.unknownExpression "foo") := by
  decide +kernel

/-- A second faulty condition is not reported, but an `if` that is left open is. -/
theorem diagnosis_of_faultySource :
    parse (faultySource ++ " if bar > 2 \x7b sell() \x7d \x7d") =
        .error (.unknownExpression "foo") ∧
      parse (faultySource ++ " if bar") = .error .missingOpenBrace := by
  have hexact := diagnosis_exact nameAt_faultySource endsInBlock_faultySource parse_faultySource
  constructor
  · have hword : endsInWord faultySource.toList = false := by decide +kernel
    have hcut : cutBlocks " if bar > 2 \x7b sell() \x7d \x7d".toList =
        .ok [⟨"bar > 2".toList, "sell()".toList⟩] := by decide +kernel
    obtain ⟨more, hlayout, -⟩ := (cutBlocks_eq_ok_iff faultySource.toList hword).mp hcut
    exact (hexact _).1.mpr (Or.inr ⟨more, hlayout⟩)
  · have hfilled : ∀ segment ∈ [faultySegment], ¬ AllBlank segment.body := by decide
    have hcut : cutBlocks " if bar".toList = .error .missingOpenBrace := by decide +kernel
    exact ((hexact _).2 hfilled _ hcut).1

/-- The fault of a complete block is hidden by an `if` behind it that is left open. -/
theorem fault_hidden_by_open_block :
    (∃ before after name, faultySource.toList = before ++ after ∧ NameAt name after) ∧
      EndsInBlock [] faultySource.toList [faultySegment] ∧
      parse faultySource = .error (.unknownExpression "foo") ∧
      parse (faultySource ++ " if bar") ≠ .error (.unknownExpression "foo") :=
  ⟨nameAt_faultySource, endsInBlock_faultySource, parse_faultySource, by decide +kernel⟩

end Strategy

end TradingRules
