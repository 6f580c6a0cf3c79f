/-
# Texts put together from records

Between records a reader has forgotten all but the records that it has read. So what a text holds is
known piece by piece, as long as every piece ends between records: first what is in the one, then what
is in the other, wherever they stand.
-/
import Mathlib.Tactic.SplitIfs
import TradingRules.Csv.Record

namespace TradingRules.Csv

namespace Reader

/-! ## Records that have been read -/

/-- A reader is between records. -/
def IsBetween (r : Reader) : Prop :=
  r.phase = .outside ∨ r.phase = .afterReturn

theorem finish_of_isBetween {r : Reader} (h : r.IsBetween) : r.finish = r.records.reverse := by
  unfold finish
  rcases h with h | h
  · rw [h]
  · rw [h]

theorem records_suffix_readPlain (r : Reader) (c : Char) : r.records <:+ (r.readPlain c).records := by
  unfold readPlain
  split_ifs
  · exact List.suffix_refl _
  · exact List.suffix_cons _ _
  · exact List.suffix_cons _ _
  · exact List.suffix_refl _

theorem records_suffix_readStart (r : Reader) (c : Char) : r.records <:+ (r.readStart c).records := by
  unfold readStart
  split_ifs
  · exact List.suffix_refl _
  · exact r.records_suffix_readPlain c

theorem records_suffix_readOutside (r : Reader) (c : Char) :
    r.records <:+ (r.readOutside c).records := by
  unfold readOutside
  split_ifs
  · exact List.suffix_refl _
  · exact r.records_suffix_readStart c

/-- A step does not change the records that have been read. -/
theorem records_suffix_step (r : Reader) (c : Char) : r.records <:+ (r.step c).records := by
  unfold step
  cases r.phase with
  | outside => exact records_suffix_readOutside { r with here := r.here.behind c } c
  | afterReturn =>
    simp only
    split_ifs
    · exact List.suffix_refl _
    · exact records_suffix_readOutside { r with here := r.here.behind c } c
  | fieldStart => exact records_suffix_readStart { r with here := r.here.behind c } c
  | plain => exact records_suffix_readPlain { r with here := r.here.behind c } c
  | quoted =>
    simp only
    split_ifs
    · exact List.suffix_refl _
    · exact List.suffix_refl _
  | afterQuote =>
    simp only
    split_ifs
    · exact List.suffix_refl _
    · exact records_suffix_readPlain { r with here := r.here.behind c } c

theorem records_suffix_foldl (r : Reader) (text : List Char) :
    r.records <:+ (text.foldl step r).records := by
  induction text generalizing r with
  | nil => exact List.suffix_refl _
  | cons c rest ih => exact (r.records_suffix_step c).trans (ih (r.step c))

theorem records_prefix_finish (r : Reader) : r.records.reverse <+: r.finish := by
  unfold finish
  cases r.phase with
  | outside => exact List.prefix_refl _
  | afterReturn => exact List.prefix_refl _
  | fieldStart | plain | quoted | afterQuote =>
    exact List.reverse_prefix.mpr (List.suffix_cons _ _)

/-! ## Readers that do the same -/

/-- Two readers are at the same point of a record, wherever that is, and the second one has read some
records before what the first one has read. -/
structure Alike (before : List (List String)) (r r' : Reader) : Prop where
  phase : r'.phase = r.phase ∨ r.IsBetween ∧ r'.IsBetween
  field : r'.field = r.field
  fields : r'.fields = r.fields
  records : r'.records.map (·.fields) = r.records.map (·.fields) ++ before

namespace Alike

variable {before : List (List String)} {r r' : Reader}

/-- Where readers are in their texts does not matter. -/
theorem behind (h : Alike before r r') (c : Char) :
    Alike before { r with here := r.here.behind c } { r' with here := r'.here.behind c } :=
  ⟨h.phase, h.field, h.fields, h.records⟩

theorem moveTo (h : Alike before r r') (phase : Phase) :
    Alike before { r with phase } { r' with phase } :=
  ⟨Or.inl rfl, h.field, h.fields, h.records⟩

theorem copy (h : Alike before r r') (phase : Phase) (c : Char) :
    Alike before (r.copy phase c) (r'.copy phase c) :=
  ⟨Or.inl rfl, congrArg (c :: ·) h.field, h.fields, h.records⟩

theorem endField (h : Alike before r r') : Alike before r.endField r'.endField := by
  refine ⟨Or.inl rfl, rfl, ?_, h.records⟩
  show String.ofList r'.field.reverse :: r'.fields = String.ofList r.field.reverse :: r.fields
  rw [h.field, h.fields]

theorem endRecord (h : Alike before r r') (phase : Phase) :
    Alike before (r.endRecord phase) (r'.endRecord phase) := by
  refine ⟨Or.inl rfl, rfl, rfl, ?_⟩
  show r'.endField.fields.reverse :: r'.records.map (·.fields) =
    r.endField.fields.reverse :: r.records.map (·.fields) ++ before
  rw [h.endField.fields, h.records, List.cons_append]

theorem readPlain (h : Alike before r r') (c : Char) :
    Alike before (r.readPlain c) (r'.readPlain c) := by
  unfold Reader.readPlain
  split_ifs
  · exact h.endField
  · exact h.endRecord _
  · exact h.endRecord _
  · exact h.copy _ c

theorem readStart (h : Alike before r r') (c : Char) :
    Alike before (r.readStart c) (r'.readStart c) := by
  unfold Reader.readStart
  split_ifs
  · exact h.moveTo _
  · exact h.readPlain c

theorem readOutside (h : Alike before r r') (c : Char) :
    Alike before (r.readOutside c) (r'.readOutside c) := by
  unfold Reader.readOutside
  split_ifs
  · exact h.moveTo _
  · exact h.readStart c

end Alike

/-- Between records it does not matter whether a carriage return was the last character. -/
theorem step_of_isBetween {r : Reader} (h : r.IsBetween) (c : Char) :
    r.step c = { r with here := r.here.behind c }.readOutside c := by
  rcases h with h | h
  · unfold step
    rw [h]
  · unfold step readOutside
    rw [h]
    by_cases hfeed : c = '\n'
    · simp only [hfeed, true_or, if_true]
    · simp only [hfeed, if_false]

namespace Alike

variable {before : List (List String)} {r r' : Reader}

/-- Readers that are alike stay alike when they read the same. -/
theorem step (h : Alike before r r') (c : Char) : Alike before (r.step c) (r'.step c) := by
  rcases h.phase with hphase | ⟨hbetween, hbetween'⟩
  · have hnext := h.behind c
    unfold Reader.step
    simp only [hphase]
    cases r.phase with
    | outside => exact hnext.readOutside c
    | afterReturn =>
      simp only
      split_ifs
      · exact hnext.moveTo _
      · exact hnext.readOutside c
    | fieldStart => exact hnext.readStart c
    | plain => exact hnext.readPlain c
    | quoted =>
      simp only
      split_ifs
      · exact hnext.moveTo _
      · exact hnext.copy _ c
    | afterQuote =>
      simp only
      split_ifs
      · exact hnext.copy _ c
      · exact hnext.readPlain c
  · rw [step_of_isBetween hbetween, step_of_isBetween hbetween']
    exact (h.behind c).readOutside c

theorem foldl (h : Alike before r r') (text : List Char) :
    Alike before (text.foldl Reader.step r) (text.foldl Reader.step r') := by
  induction text generalizing r r' with
  | nil => exact h
  | cons c rest ih => exact ih (h.step c)

theorem isBetween (h : Alike before r r') (hbetween : r.IsBetween) : r'.IsBetween := by
  rcases h.phase with hphase | ⟨-, hbetween'⟩
  · rw [IsBetween, hphase]
    exact hbetween
  · exact hbetween'

/-- In the end, too, the one has read what the other has, behind the records from before. -/
theorem map_fields_finish (h : Alike before r r') :
    r'.finish.map (·.fields) = before.reverse ++ r.finish.map (·.fields) := by
  have hrecords {s s' : Reader} (hs : Alike before s s') : s'.records.reverse.map (·.fields) =
      before.reverse ++ s.records.reverse.map (·.fields) := by
    rw [List.map_reverse, hs.records, List.reverse_append, List.map_reverse]
  rcases h.phase with hphase | ⟨hbetween, hbetween'⟩
  · unfold finish
    rw [hphase]
    cases r.phase with
    | outside | afterReturn => exact hrecords h
    | fieldStart | plain | quoted | afterQuote => exact hrecords (h.endRecord _)
  · rw [finish_of_isBetween hbetween, finish_of_isBetween hbetween']
    exact hrecords h

end Alike

/-! ## Between records -/

/-- A reader that is between records keeps nothing of any field. -/
def IsClear (r : Reader) : Prop :=
  r.IsBetween → r.field = [] ∧ r.fields = []

theorem isClear_endRecord (r : Reader) (phase : Phase) : (r.endRecord phase).IsClear :=
  fun _ => ⟨rfl, rfl⟩

theorem isClear_of_phase {r : Reader} (h : r.phase ≠ .outside) (h' : r.phase ≠ .afterReturn) :
    r.IsClear :=
  fun hbetween => hbetween.elim (fun hphase => absurd hphase h) fun hphase => absurd hphase h'

theorem isClear_readPlain (r : Reader) (c : Char) : (r.readPlain c).IsClear := by
  unfold readPlain
  split_ifs
  · exact isClear_of_phase nofun nofun
  · exact r.isClear_endRecord _
  · exact r.isClear_endRecord _
  · exact isClear_of_phase nofun nofun

theorem isClear_readStart (r : Reader) (c : Char) : (r.readStart c).IsClear := by
  unfold readStart
  split_ifs
  · exact isClear_of_phase nofun nofun
  · exact r.isClear_readPlain c

theorem IsClear.step {r : Reader} (h : r.IsClear) (c : Char) : (r.step c).IsClear := by
  by_cases hbetween : r.IsBetween
  · rw [step_of_isBetween hbetween]
    unfold readOutside
    split_ifs
    · exact fun _ => h hbetween
    · exact isClear_readStart _ c
  · unfold Reader.step
    cases hphase : r.phase with
    | outside => exact absurd (Or.inl hphase) hbetween
    | afterReturn => exact absurd (Or.inr hphase) hbetween
    | fieldStart => exact isClear_readStart _ c
    | plain => exact isClear_readPlain _ c
    | quoted =>
      simp only
      split_ifs
      · exact isClear_of_phase nofun nofun
      · exact isClear_of_phase nofun nofun
    | afterQuote =>
      simp only
      split_ifs
      · exact isClear_of_phase nofun nofun
      · exact isClear_readPlain _ c

theorem IsClear.foldl {r : Reader} (h : r.IsClear) (text : List Char) :
    (text.foldl Reader.step r).IsClear := by
  induction text generalizing r with
  | nil => exact h
  | cons c rest ih => exact ih (h.step c)

/-- A reader that has read nothing is clear, wherever it is. -/
theorem isClear_start (here : Position) : ({ here } : Reader).IsClear :=
  fun _ => ⟨rfl, rfl⟩

/-- Between records a reader is at the point where it began. -/
theorem IsClear.alike {r : Reader} (h : r.IsClear) (hbetween : r.IsBetween) :
    Alike (r.records.map (·.fields)) {} r :=
  ⟨Or.inr ⟨Or.inl rfl, hbetween⟩, (h hbetween).1, (h hbetween).2, rfl⟩

/-- What is read from between records on is read like a text of its own. -/
theorem IsClear.map_fields_finish {r : Reader} (h : r.IsClear) (hbetween : r.IsBetween)
    (text : List Char) : (text.foldl Reader.step r).finish.map (·.fields) =
      r.finish.map (·.fields) ++ (text.foldl Reader.step {}).finish.map (·.fields) := by
  rw [((h.alike hbetween).foldl text).map_fields_finish, finish_of_isBetween hbetween,
    List.map_reverse]

/-- A line end outside of quotes does to a record what the end of the text does. -/
theorem finish_step_newline {r : Reader} (h : (r.step '\n').IsBetween) :
    (r.step '\n').finish = r.finish := by
  rw [finish_of_isBetween h]
  by_cases hbetween : r.IsBetween
  · rw [step_of_isBetween hbetween, finish_of_isBetween hbetween]
    rfl
  · unfold step at h ⊢
    unfold finish
    cases hphase : r.phase with
    | outside => exact absurd (Or.inl hphase) hbetween
    | afterReturn => exact absurd (Or.inr hphase) hbetween
    | fieldStart | plain | afterQuote => rfl
    | quoted =>
      rw [hphase] at h
      rcases h with h | h
      · cases h
      · cases h

/-- The reader behind a text. -/
def behind : List Char → Reader
  | [] => {}
  | c :: rest =>
    if c = byteOrderMark then rest.foldl step { here := { byte := c.utf8Size } }
    else (c :: rest).foldl step {}

theorem behind_append {front : List Char} (h : front ≠ []) (back : List Char) :
    behind (front ++ back) = back.foldl step (behind front) := by
  cases front with
  | nil => exact absurd rfl h
  | cons c rest =>
    rw [List.cons_append, behind, behind]
    split_ifs
    · rw [List.foldl_append]
    · rw [← List.cons_append, List.foldl_append]

theorem isClear_behind (text : List Char) : (behind text).IsClear := by
  cases text with
  | nil => exact isClear_start _
  | cons c rest =>
    rw [behind]
    split_ifs
    · exact (isClear_start _).foldl rest
    · exact (isClear_start _).foldl _

end Reader

/-! ## Texts in pieces -/

theorem records_eq_finish (text : List Char) : records text = (Reader.behind text).finish := by
  cases text with
  | nil => rfl
  | cons c rest =>
    unfold records Reader.behind
    simp only
    split_ifs
    · rfl
    · rfl

/-- What the records of a text hold. -/
def rows (text : List Char) : List (List String) :=
  (records text).map (·.fields)

/-- A text that ends between records. -/
def IsWhole (text : List Char) : Prop :=
  text ≠ [] ∧ (Reader.behind text).IsBetween

instance (text : List Char) : Decidable (IsWhole text) :=
  inferInstanceAs (Decidable (_ ∧ (_ ∨ _)))

/-- What the records of a piece of text hold, which does not stand at the beginning: a byte order mark
is a character like any other there. -/
def rowsWithin (piece : List Char) : List (List String) :=
  (piece.foldl Reader.step {}).finish.map (·.fields)

/-- A piece of text, not at the beginning, that ends between records. -/
def IsWholePiece (piece : List Char) : Prop :=
  (piece.foldl Reader.step {}).IsBetween

instance (piece : List Char) : Decidable (IsWholePiece piece) :=
  inferInstanceAs (Decidable (_ ∨ _))

/-- The records of a whole text stay what they are, in their places, whatever is put behind. -/
theorem records_prefix_append {front : List Char} (h : IsWhole front) (back : List Char) :
    records front <+: records (front ++ back) := by
  rw [records_eq_finish, records_eq_finish, Reader.behind_append h.1,
    Reader.finish_of_isBetween h.2]
  refine List.IsPrefix.trans ?_ (Reader.records_prefix_finish _)
  exact List.reverse_prefix.mpr (Reader.records_suffix_foldl _ back)

/-- Behind a whole text a piece is read by itself. -/
theorem rows_append {front : List Char} (h : IsWhole front) (back : List Char) :
    rows (front ++ back) = rows front ++ rowsWithin back := by
  unfold rows
  rw [records_eq_finish, records_eq_finish, Reader.behind_append h.1]
  exact (Reader.isClear_behind front).map_fields_finish h.2 back

theorem rowsWithin_append {front : List Char} (h : IsWholePiece front) (back : List Char) :
    rowsWithin (front ++ back) = rowsWithin front ++ rowsWithin back := by
  unfold rowsWithin
  rw [List.foldl_append]
  exact ((Reader.isClear_start {}).foldl front).map_fields_finish h back

/-- Whole pieces are read one by one. -/
theorem rowsWithin_flatten {pieces : List (List Char)} (h : ∀ p ∈ pieces, IsWholePiece p) :
    rowsWithin pieces.flatten = (pieces.map rowsWithin).flatten := by
  induction pieces with
  | nil => rfl
  | cons p rest ih =>
    obtain ⟨hp, hrest⟩ := List.forall_mem_cons.mp h
    rw [List.flatten_cons, rowsWithin_append hp, ih hrest, List.map_cons, List.flatten_cons]

/-- Whole pieces behind a whole text make a whole text. -/
theorem IsWhole.append {front : List Char} {pieces : List (List Char)} (h : IsWhole front)
    (hpieces : ∀ p ∈ pieces, IsWholePiece p) : IsWhole (front ++ pieces.flatten) := by
  refine ⟨List.append_ne_nil_of_left_ne_nil h.1 _, ?_⟩
  rw [Reader.behind_append h.1]
  have hclear := Reader.isClear_behind front
  have hbetween := h.2
  generalize Reader.behind front = r at hclear hbetween
  induction pieces generalizing r with
  | nil => exact hbetween
  | cons p rest ih =>
    obtain ⟨hp, hrest⟩ := List.forall_mem_cons.mp hpieces
    rw [List.flatten_cons, List.foldl_append]
    refine ih hrest (p.foldl Reader.step r) (hclear.foldl p) ?_
    exact ((hclear.alike hbetween).foldl p).isBetween hp

/-- A line end that ends a text ends its last record, if it has not ended yet. -/
theorem records_append_newline {text : List Char} (h : IsWhole (text ++ ['\n'])) :
    records (text ++ ['\n']) = records text := by
  by_cases hne : text = []
  · rw [hne]
    decide
  · have hbetween := h.2
    rw [records_eq_finish, records_eq_finish, Reader.behind_append hne]
    rw [Reader.behind_append hne] at hbetween
    exact Reader.finish_step_newline hbetween

/-- A text consists of a front and pieces behind it, but for a line end that may be missing at its
end. -/
def IsCut (front : List Char) (pieces : List (List Char)) (text : List Char) : Prop :=
  text = front ++ pieces.flatten ∨ text ++ ['\n'] = front ++ pieces.flatten

theorem IsCut.rows_eq {front text : List Char} {pieces : List (List Char)}
    (hcut : IsCut front pieces text) (h : IsWhole front) (hpieces : ∀ p ∈ pieces, IsWholePiece p) :
    rows text = rows front ++ (pieces.map rowsWithin).flatten := by
  have hall : rows (front ++ pieces.flatten) = rows front ++ (pieces.map rowsWithin).flatten := by
    rw [rows_append h, rowsWithin_flatten hpieces]
  rcases hcut with htext | htext
  · rw [htext, hall]
  · rw [← hall, ← htext, rows, rows, records_append_newline (htext ▸ h.append hpieces)]

/-- Two texts have the same front, in which there is a record, and behind it the same pieces in some
order. -/
def IsReordered (text text' : List Char) : Prop :=
  ∃ front pieces pieces', IsWhole front ∧ rows front ≠ [] ∧ (∀ p ∈ pieces, IsWholePiece p) ∧
    pieces'.Perm pieces ∧ IsCut front pieces text ∧ IsCut front pieces' text'

/-- Texts with their pieces in another order have the same heading, and the same records behind it in
another order. -/
theorem IsReordered.exists_perm {text text' : List Char} (h : IsReordered text text') :
    ∃ heading data data', rows text = heading :: data ∧ rows text' = heading :: data' ∧
      data'.Perm data := by
  obtain ⟨front, pieces, pieces', hfront, hne, hpieces, hperm, hcut, hcut'⟩ := h
  obtain ⟨heading, rest, hrows⟩ := List.exists_cons_of_ne_nil hne
  have hpieces' : ∀ p ∈ pieces', IsWholePiece p := fun p hp => hpieces p (hperm.mem_iff.mp hp)
  refine ⟨heading, rest ++ (pieces.map rowsWithin).flatten,
    rest ++ (pieces'.map rowsWithin).flatten, ?_, ?_, ?_⟩
  · rw [hcut.rows_eq hfront hpieces, hrows, List.cons_append]
  · rw [hcut'.rows_eq hfront hpieces', hrows, List.cons_append]
  · exact ((hperm.map rowsWithin).flatten).append_left rest

end TradingRules.Csv
