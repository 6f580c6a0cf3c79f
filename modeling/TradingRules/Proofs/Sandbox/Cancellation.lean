/-
# How far a cancellation reaches

Deadlines are given out, cloned and cancelled while time passes. Which of them are over can be read
off the operations that were performed: clones of one family share the moment from which on they are
over, and a cancellation reaches all of its family, whether cloned before or after, and nobody else.
-/
import Mathlib.Data.List.Basic
import Mathlib.Data.List.Induction
import Mathlib.Logic.Relation
import TradingRules.Sandbox.Deadline

namespace TradingRules.Sandbox

namespace Deadlines

/-! ## Operations -/

/-- What can be done with deadlines. They are named by their places, in the order in which they were
given out. -/
inductive Operation where
  | addUnbounded
  | addAfter (timeoutMs : Nat)
  | clone (original : Nat)
  | cancel (place : Nat)
  | wait (ms : Nat)
deriving DecidableEq, Repr

namespace Operation

/-- The time that an operation takes. -/
def ms : Operation → Nat
  | wait ms => ms
  | addUnbounded | addAfter _ | clone _ | cancel _ => 0

/-- How many deadlines there are after an operation. -/
def given (size : Nat) : Operation → Nat
  | addUnbounded | addAfter _ => size + 1
  | clone original => if original < size then size + 1 else size
  | cancel _ | wait _ => size

/-- The time limit with which an operation begins a family. -/
def limit? : Operation → Option Nat
  | addUnbounded => some 0
  | addAfter timeoutMs => some timeoutMs
  | clone _ | cancel _ | wait _ => none

/-- The deadline with which an operation begins a family at some moment. -/
def deadline? (moment : Nat) : Operation → Option Deadline
  | addUnbounded => some .unbounded
  | addAfter timeoutMs => some (.after moment timeoutMs)
  | clone _ | cancel _ | wait _ => none

theorem limit?_eq (moment : Nat) (op : Operation) :
    op.limit? = (op.deadline? moment).map (·.timeoutMs) := by
  cases op <;> rfl

end Operation

/-- What an operation does. -/
def perform (s : Deadlines) : Operation → Deadlines
  | .addUnbounded => s.addUnbounded
  | .addAfter timeoutMs => s.addAfter timeoutMs
  | .clone original => s.clone original
  | .cancel place => s.cancel place
  | .wait ms => s.wait ms

/-- The deadlines after a history of operations. -/
def after (history : List Operation) : Deadlines :=
  history.foldl perform {}

/-- How many deadlines a history has given out. -/
def given (history : List Operation) : Nat :=
  history.foldl Operation.given 0

/-- The time that has passed in a history. -/
def elapsed (history : List Operation) : Nat :=
  history.foldl (fun moment op => moment + op.ms) 0

theorem after_concat (history : List Operation) (op : Operation) :
    after (history ++ [op]) = (after history).perform op :=
  List.foldl_concat ..

theorem given_concat (history : List Operation) (op : Operation) :
    given (history ++ [op]) = op.given (given history) :=
  List.foldl_concat ..

theorem elapsed_concat (history : List Operation) (op : Operation) :
    elapsed (history ++ [op]) = elapsed history + op.ms :=
  List.foldl_concat ..

/-! ## One operation -/

/-- The handle that an operation gives out. -/
def made? (s : Deadlines) : Operation → Option Handle
  | .addUnbounded => some ⟨.unbounded, s.handles.length⟩
  | .addAfter timeoutMs => some ⟨.after s.now timeoutMs, s.handles.length⟩
  | .clone original => s.handles[original]?
  | .cancel _ | .wait _ => none

/-- The family that an operation cancels. -/
def stopped? (s : Deadlines) : Operation → Option Nat
  | .cancel place => s.handles[place]?.map (·.family)
  | .addUnbounded | .addAfter _ | .clone _ | .wait _ => none

theorem handles_perform (s : Deadlines) (op : Operation) :
    (s.perform op).handles = s.handles ++ (s.made? op).toList := by
  cases op with
  | addUnbounded => rfl
  | addAfter timeoutMs => rfl
  | clone original =>
    rw [perform, Deadlines.clone, made?]
    split
    · next h => rw [h]; rfl
    · next h => rw [h, Option.toList_none, List.append_nil]
  | cancel place =>
    rw [perform, cancel, made?, Option.toList_none, List.append_nil]
    split <;> rfl
  | wait ms => rw [perform, wait, made?, Option.toList_none, List.append_nil]

theorem cancelled_perform (s : Deadlines) (op : Operation) :
    (s.perform op).cancelled = (s.stopped? op).toList ++ s.cancelled := by
  cases op with
  | addUnbounded => rfl
  | addAfter timeoutMs => rfl
  | clone original =>
    rw [perform, Deadlines.clone, stopped?]
    split <;> rfl
  | cancel place =>
    rw [perform, cancel, stopped?]
    split
    · next h => rw [h]; rfl
    · next h => rw [h]; rfl
  | wait ms => rfl

theorem now_perform (s : Deadlines) (op : Operation) :
    (s.perform op).now = s.now + op.ms := by
  cases op with
  | addUnbounded => rfl
  | addAfter timeoutMs => rfl
  | clone original =>
    rw [perform, Deadlines.clone]
    split <;> rfl
  | cancel place =>
    rw [perform, cancel]
    split <;> rfl
  | wait ms => rfl

theorem length_handles_perform (s : Deadlines) (op : Operation) :
    (s.perform op).handles.length = op.given s.handles.length := by
  rw [handles_perform, List.length_append, Option.length_toList]
  cases op with
  | addUnbounded => rfl
  | addAfter timeoutMs => rfl
  | clone original =>
    by_cases h : original < s.handles.length
    · rw [made?, List.getElem?_eq_getElem h, Operation.given, if_pos h]
      rfl
    · rw [made?, List.getElem?_eq_none (Nat.not_lt.mp h), Operation.given, if_neg h]
      rfl
  | cancel place => rfl
  | wait ms => rfl

/-- An operation gives out the first handle of a new family, or a clone. -/
theorem eq_of_made? {s : Deadlines} {op : Operation} {handle : Handle}
    (h : s.made? op = some handle) :
    op.deadline? s.now = some handle.deadline ∧ handle.family = s.handles.length ∨
      ∃ original, op = .clone original ∧ s.handles[original]? = some handle := by
  cases op with
  | addUnbounded =>
    cases h
    exact Or.inl ⟨rfl, rfl⟩
  | addAfter timeoutMs =>
    cases h
    exact Or.inl ⟨rfl, rfl⟩
  | clone original => exact Or.inr ⟨original, rfl, h⟩
  | cancel place => exact nomatch h
  | wait ms => exact nomatch h

/-- A family is cancelled by way of one of its handles. -/
theorem eq_of_stopped? {s : Deadlines} {op : Operation} {family : Nat}
    (h : s.stopped? op = some family) :
    ∃ place handle, op = .cancel place ∧ s.handles[place]? = some handle ∧
      handle.family = family := by
  cases op with
  | addUnbounded => exact nomatch h
  | addAfter timeoutMs => exact nomatch h
  | clone original => exact nomatch h
  | cancel place =>
    obtain ⟨handle, hplace, hfamily⟩ := Option.map_eq_some_iff.mp h
    exact ⟨place, handle, rfl, hplace, hfamily⟩
  | wait ms => exact nomatch h

/-- A handle after an operation was there before, or it has just been given out. -/
theorem getElem?_handles_perform {s : Deadlines} {op : Operation} {place : Nat} {handle : Handle}
    (h : (s.perform op).handles[place]? = some handle) :
    s.handles[place]? = some handle ∨ place = s.handles.length ∧ s.made? op = some handle := by
  rw [handles_perform] at h
  cases hmade : s.made? op with
  | none =>
    rw [hmade, Option.toList_none, List.append_nil] at h
    exact Or.inl h
  | some new =>
    rw [hmade, Option.toList_some, List.getElem?_append] at h
    split_ifs at h with hlt
    · exact Or.inl h
    · obtain ⟨hfirst, hnew⟩ := List.getElem?_eq_some_iff.mp h
      rw [List.length_singleton] at hfirst
      rw [List.getElem_singleton] at hnew
      exact Or.inr ⟨by omega, congrArg some hnew⟩

/-- A handle that is over stays so, whatever is done. -/
theorem isExpired_perform {s : Deadlines} {handle : Handle} (h : s.isExpired handle = true)
    (op : Operation) : (s.perform op).isExpired handle = true := by
  rw [isExpired, Deadline.isOver, Bool.or_eq_true, decide_eq_true_eq] at h ⊢
  rw [cancelled_perform, now_perform]
  refine h.imp (List.mem_append_right _) fun hreached => ?_
  rw [Deadline.isReached] at hreached ⊢
  split at hreached
  · next moment hmoment =>
    rw [decide_eq_true_eq] at hreached ⊢
    exact Nat.le_add_right_of_le hreached
  · exact absurd hreached Bool.false_ne_true

/-! ## Histories -/

theorem length_handles_after (history : List Operation) :
    (after history).handles.length = given history := by
  induction history using List.reverseRecOn with
  | nil => rfl
  | append_singleton front op ih =>
    rw [after_concat, given_concat, length_handles_perform, ih]

theorem now_after (history : List Operation) : (after history).now = elapsed history := by
  induction history using List.reverseRecOn with
  | nil => rfl
  | append_singleton front op ih => rw [after_concat, elapsed_concat, now_perform, ih]

/-- Handles that are given out keep their places. -/
theorem isPrefix_handles {early history : List Operation} (h : early <+: history) :
    (after early).handles <+: (after history).handles := by
  obtain ⟨late, rfl⟩ := h
  induction late using List.reverseRecOn with
  | nil => simp only [List.append_nil, List.prefix_rfl]
  | append_singleton front op ih =>
    rw [← List.append_assoc, after_concat, handles_perform]
    exact ih.trans (List.prefix_append _ _)

theorem getElem?_handles {early history : List Operation} {place : Nat} {handle : Handle}
    (h : early <+: history) (hplace : (after early).handles[place]? = some handle) :
    (after history).handles[place]? = some handle := by
  obtain ⟨hlt, rfl⟩ := List.getElem?_eq_some_iff.mp hplace
  exact List.prefix_iff_getElem?.mp (isPrefix_handles h) place hlt

/-- What is over once is over forever. -/
theorem isExpired_append {early : List Operation} {handle : Handle}
    (h : (after early).isExpired handle = true) (late : List Operation) :
    (after (early ++ late)).isExpired handle = true := by
  induction late using List.reverseRecOn with
  | nil => rwa [List.append_nil]
  | append_singleton front op ih =>
    rw [← List.append_assoc, after_concat]
    exact isExpired_perform ih op

/-! ## What can be read off a history -/

/-- An operation was performed at some moment, when so many deadlines had been given out. A deadline
that it gave out has this number as its place. -/
def IsDone (history : List Operation) (op : Operation) (size moment : Nat) : Prop :=
  ∃ before, before ++ [op] <+: history ∧ given before = size ∧ elapsed before = moment

/-- The deadline at a place was given out as a clone of another one. -/
def IsClone (history : List Operation) (place original : Nat) : Prop :=
  original < place ∧ ∃ moment, IsDone history (.clone original) place moment

/-- Two deadlines are connected by cloning. -/
def SameFamily (history : List Operation) : Nat → Nat → Prop :=
  Relation.EqvGen (IsClone history)

/-- The time limit of a deadline is the one with which its family began. -/
def IsLimit (history : List Operation) (place limit : Nat) : Prop :=
  ∃ op root moment, IsDone history op root moment ∧ op.limit? = some limit ∧
    SameFamily history root place

/-- The time limit of a deadline has passed since its family began. -/
def IsReached (history : List Operation) (place : Nat) : Prop :=
  ∃ timeoutMs root moment, IsDone history (.addAfter timeoutMs) root moment ∧
    SameFamily history root place ∧ moment + timeoutMs ≤ elapsed history

/-- A deadline of the family was cancelled. -/
def IsCancelled (history : List Operation) (place : Nat) : Prop :=
  ∃ other size moment, IsDone history (.cancel other) size moment ∧ other < size ∧
    SameFamily history other place

theorem isDone_last (history : List Operation) (op : Operation) :
    IsDone (history ++ [op]) op (given history) (elapsed history) :=
  ⟨history, List.prefix_rfl, rfl, rfl⟩

theorem IsDone.append {early : List Operation} {op : Operation} {size moment : Nat}
    (h : IsDone early op size moment) (late : List Operation) :
    IsDone (early ++ late) op size moment := by
  obtain ⟨before, hprefix, hdone⟩ := h
  exact ⟨before, hprefix.trans (List.prefix_append _ _), hdone⟩

theorem SameFamily.append {early : List Operation} {i j : Nat} (h : SameFamily early i j)
    (late : List Operation) : SameFamily (early ++ late) i j :=
  Relation.EqvGen.mono (fun _ _ hclone => ⟨hclone.1, hclone.2.imp fun _ hdone => hdone.append late⟩)
    _ _ h

/-- When an operation was performed, all that it gave out got its place for good. -/
theorem IsDone.exists_before {history : List Operation} {op : Operation} {size moment : Nat}
    (h : IsDone history op size moment) :
    ∃ before, before <+: history ∧ (after before).handles.length = size ∧
      (after before).now = moment ∧
      ∀ handle, (after before).made? op = some handle →
        (after history).handles[size]? = some handle := by
  obtain ⟨before, hprefix, rfl, rfl⟩ := h
  refine ⟨before, (List.prefix_append _ _).trans hprefix, length_handles_after _, now_after _, ?_⟩
  intro handle hmade
  refine getElem?_handles hprefix ?_
  rw [after_concat, handles_perform, hmade, ← length_handles_after]
  exact List.getElem?_concat_length

/-- A family is named by the place of its first handle. -/
theorem IsDone.getElem?_eq {history : List Operation} {op : Operation} {root moment : Nat}
    {deadline : Deadline} (h : IsDone history op root moment)
    (hdeadline : op.deadline? moment = some deadline) :
    (after history).handles[root]? = some ⟨deadline, root⟩ := by
  obtain ⟨before, -, rfl, rfl, hmade⟩ := h.exists_before
  cases op with
  | addUnbounded =>
    cases hdeadline
    exact hmade _ rfl
  | addAfter timeoutMs =>
    cases hdeadline
    exact hmade _ rfl
  | clone original => exact nomatch hdeadline
  | cancel place => exact nomatch hdeadline
  | wait ms => exact nomatch hdeadline

/-! ## Families -/

/-- A clone is the same handle as its original. -/
theorem IsClone.getElem?_eq {history : List Operation} {place original : Nat}
    (h : IsClone history place original) :
    (after history).handles[place]? = (after history).handles[original]? := by
  obtain ⟨hlt, moment, hdone⟩ := h
  obtain ⟨before, hprefix, hlength, -, hmade⟩ := hdone.exists_before
  have horiginal := List.getElem?_eq_getElem (hlength.symm ▸ hlt)
  rw [hmade _ horiginal, getElem?_handles hprefix horiginal]

/-- All of a family hold the same handle. -/
theorem SameFamily.getElem?_eq {history : List Operation} {i j : Nat} (h : SameFamily history i j) :
    (after history).handles[i]? = (after history).handles[j]? := by
  induction h with
  | rel i j hclone => exact hclone.getElem?_eq
  | refl i => rfl
  | symm i j _ ih => exact ih.symm
  | trans i j k _ _ ih ih' => exact ih.trans ih'

/-- A family began with the deadline of a handle, at the place that is its name. -/
def Began (history : List Operation) (handle : Handle) : Prop :=
  ∃ op moment, IsDone history op handle.family moment ∧ op.deadline? moment = some handle.deadline

theorem Began.append {early : List Operation} {handle : Handle} (h : Began early handle)
    (late : List Operation) : Began (early ++ late) handle := by
  obtain ⟨op, moment, hdone, hdeadline⟩ := h
  exact ⟨op, moment, hdone.append late, hdeadline⟩

/-- A handle comes from the beginning of its family, to which cloning connects its place. -/
theorem began_and_sameFamily {history : List Operation} {place : Nat} {handle : Handle}
    (hplace : (after history).handles[place]? = some handle) :
    Began history handle ∧ SameFamily history handle.family place := by
  induction history using List.reverseRecOn generalizing place handle with
  | nil => exact nomatch hplace
  | append_singleton front op ih =>
    rw [after_concat] at hplace
    rcases getElem?_handles_perform hplace with hold | ⟨rfl, hmade⟩
    · exact (ih hold).imp (·.append [op]) (·.append [op])
    · have hdone := isDone_last front op
      rw [← length_handles_after, ← now_after] at hdone
      rcases eq_of_made? hmade with ⟨hdeadline, hfamily⟩ | ⟨original, rfl, horiginal⟩
      · rw [Began, hfamily]
        exact ⟨⟨op, _, hdone, hdeadline⟩, .refl _⟩
      · -- a clone belongs to the family of its original
        obtain ⟨hbegan, hsame⟩ := ih horiginal
        have hclone : IsClone (front ++ [.clone original]) (after front).handles.length original :=
          ⟨(List.getElem?_eq_some_iff.mp horiginal).1, _, hdone⟩
        exact ⟨hbegan.append _, .trans _ _ _ (hsame.append _) (.symm _ _ (.rel _ _ hclone))⟩

/-- Two handles are connected by cloning if and only if they bear the name of one family. -/
theorem sameFamily_iff {history : List Operation} {i j : Nat} {a b : Handle}
    (hi : (after history).handles[i]? = some a) (hj : (after history).handles[j]? = some b) :
    SameFamily history i j ↔ a.family = b.family := by
  constructor
  · intro h
    have heq : some a = some b := hi.symm.trans (h.getElem?_eq.trans hj)
    rw [Option.some.inj heq]
  · intro h
    have hsame := (began_and_sameFamily hj).2
    rw [← h] at hsame
    exact .trans _ _ _ (.symm _ _ (began_and_sameFamily hi).2) hsame

section Over

variable {history : List Operation} {place : Nat} {handle : Handle}

/-- What began a family is what the handle of each of its members tells. -/
theorem deadline_eq (hplace : (after history).handles[place]? = some handle) {op : Operation}
    {root moment : Nat} {deadline : Deadline} (hdone : IsDone history op root moment)
    (hdeadline : op.deadline? moment = some deadline) (hsame : SameFamily history root place) :
    handle.deadline = deadline := by
  have heq : some handle = some ⟨deadline, root⟩ :=
    hplace.symm.trans (hsame.getElem?_eq.symm.trans (hdone.getElem?_eq hdeadline))
  rw [Option.some.inj heq]

theorem isLimit_iff (hplace : (after history).handles[place]? = some handle) (limit : Nat) :
    IsLimit history place limit ↔ limit = handle.deadline.timeoutMs := by
  constructor
  · rintro ⟨op, root, moment, hdone, hlimit, hsame⟩
    rw [op.limit?_eq moment, Option.map_eq_some_iff] at hlimit
    obtain ⟨deadline, hdeadline, rfl⟩ := hlimit
    rw [deadline_eq hplace hdone hdeadline hsame]
  · rintro rfl
    obtain ⟨⟨op, moment, hdone, hdeadline⟩, hsame⟩ := began_and_sameFamily hplace
    exact ⟨op, _, moment, hdone, by rw [op.limit?_eq moment, hdeadline]; rfl, hsame⟩

theorem isReached_iff (hplace : (after history).handles[place]? = some handle) :
    IsReached history place ↔ handle.deadline.isReached (after history).now = true := by
  rw [now_after]
  constructor
  · rintro ⟨timeoutMs, root, moment, hdone, hsame, hle⟩
    rw [deadline_eq hplace hdone rfl hsame]
    exact decide_eq_true hle
  · intro hreached
    obtain ⟨⟨op, moment, hdone, hdeadline⟩, hsame⟩ := began_and_sameFamily hplace
    cases op with
    | addUnbounded =>
      rw [← Option.some.inj hdeadline] at hreached
      exact absurd hreached Bool.false_ne_true
    | addAfter timeoutMs =>
      rw [← Option.some.inj hdeadline] at hreached
      exact ⟨timeoutMs, _, moment, hdone, hsame, of_decide_eq_true hreached⟩
    | clone original => exact nomatch hdeadline
    | cancel other => exact nomatch hdeadline
    | wait ms => exact nomatch hdeadline

/-- A family is cancelled if an operation of the history cancelled it. -/
theorem mem_cancelled_iff {family : Nat} :
    family ∈ (after history).cancelled ↔
      ∃ before op, before ++ [op] <+: history ∧ (after before).stopped? op = some family := by
  induction history using List.reverseRecOn with
  | nil =>
    refine iff_of_false (List.not_mem_nil) ?_
    rintro ⟨before, op, hprefix, -⟩
    exact List.append_ne_nil_of_right_ne_nil before (List.cons_ne_nil op [])
      (List.prefix_nil.mp hprefix)
  | append_singleton front op ih =>
    rw [after_concat, cancelled_perform, List.mem_append, Option.mem_toList, ih]
    constructor
    · rintro (hstopped | ⟨before, op', hprefix, hstopped⟩)
      · exact ⟨front, op, List.prefix_rfl, hstopped⟩
      · exact ⟨before, op', hprefix.trans (List.prefix_append _ _), hstopped⟩
    · rintro ⟨before, op', hprefix, hstopped⟩
      rcases List.prefix_concat_iff.mp hprefix with heq | hprefix
      · obtain ⟨rfl, hop⟩ := List.append_inj' heq rfl
        obtain rfl := List.singleton_inj.mp hop
        exact Or.inl hstopped
      · exact Or.inr ⟨before, op', hprefix, hstopped⟩

theorem isCancelled_iff (hplace : (after history).handles[place]? = some handle) :
    IsCancelled history place ↔ handle.family ∈ (after history).cancelled := by
  rw [mem_cancelled_iff]
  constructor
  · rintro ⟨other, size, moment, ⟨before, hprefix, rfl, -⟩, hlt, hsame⟩
    rw [← length_handles_after] at hlt
    have hother := List.getElem?_eq_getElem hlt
    have hlater := getElem?_handles ((List.prefix_append _ _).trans hprefix) hother
    refine ⟨before, .cancel other, hprefix, ?_⟩
    rw [stopped?, hother, Option.map_some, (sameFamily_iff hlater hplace).mp hsame]
  · rintro ⟨before, op, hprefix, hstopped⟩
    obtain ⟨other, handle', rfl, hother, hfamily⟩ := eq_of_stopped? hstopped
    have hlater := getElem?_handles ((List.prefix_append _ _).trans hprefix) hother
    have hlt : other < given before :=
      length_handles_after before ▸ (List.getElem?_eq_some_iff.mp hother).1
    exact ⟨other, _, _, ⟨before, hprefix, rfl, rfl⟩, hlt, (sameFamily_iff hlater hplace).mpr hfamily⟩

theorem isExpired_iff (hplace : (after history).handles[place]? = some handle) :
    (after history).isExpired handle = true ↔ IsReached history place ∨ IsCancelled history place := by
  rw [isExpired, Deadline.isOver, Bool.or_eq_true, decide_eq_true_eq, Or.comm,
    isReached_iff hplace, isCancelled_iff hplace]

end Over

/-! ## Other families -/

/-- States that differ at most in whether a family is cancelled. -/
structure AlikeBut (family : Nat) (s t : Deadlines) : Prop where
  handles : s.handles = t.handles
  now : s.now = t.now
  cancelled : ∀ other ≠ family, (other ∈ s.cancelled ↔ other ∈ t.cancelled)

theorem AlikeBut.perform {family : Nat} {s t : Deadlines} (h : AlikeBut family s t)
    (op : Operation) : AlikeBut family (s.perform op) (t.perform op) := by
  have hmade : s.made? op = t.made? op := by
    cases op <;> simp only [made?, h.handles, h.now]
  have hstopped : s.stopped? op = t.stopped? op := by
    cases op <;> simp only [stopped?, h.handles]
  refine ⟨?_, ?_, fun other hother => ?_⟩
  · rw [handles_perform, handles_perform, h.handles, hmade]
  · rw [now_perform, now_perform, h.now]
  · rw [cancelled_perform, cancelled_perform, List.mem_append, List.mem_append, hstopped,
      h.cancelled other hother]

theorem AlikeBut.foldl {family : Nat} {s t : Deadlines} (h : AlikeBut family s t)
    (history : List Operation) :
    AlikeBut family (history.foldl Deadlines.perform s) (history.foldl Deadlines.perform t) := by
  induction history generalizing s t with
  | nil => exact h
  | cons op rest ih => exact ih (h.perform op)

/-- To cancel one family makes no difference to the others. -/
theorem alikeBut_cancel {s : Deadlines} {place : Nat} {handle : Handle}
    (hplace : s.handles[place]? = some handle) :
    AlikeBut handle.family s (s.perform (.cancel place)) := by
  have hstopped : s.stopped? (.cancel place) = some handle.family := by rw [stopped?, hplace]; rfl
  refine ⟨?_, (now_perform s (.cancel place)).symm, fun other hother => ?_⟩
  · rw [handles_perform, made?, Option.toList_none, List.append_nil]
  · rw [cancelled_perform, hstopped, Option.toList_some, List.singleton_append, List.mem_cons]
    exact (or_iff_right hother).symm

theorem isExpired_eq_of_alikeBut {family : Nat} {s t : Deadlines} {handle : Handle}
    (h : AlikeBut family s t) (hfamily : handle.family ≠ family) :
    s.isExpired handle = t.isExpired handle := by
  rw [isExpired, isExpired, h.now, decide_eq_decide.mpr (h.cancelled _ hfamily)]

/-- A deadline fares as if a cancellation in another family had not been. -/
theorem without_cancel {before later : List Operation} {place other : Nat} {handle : Handle}
    (hplace : (after (before ++ .cancel other :: later)).handles[place]? = some handle)
    (hother : ¬ SameFamily (before ++ .cancel other :: later) other place) :
    (after (before ++ later)).handles[place]? = some handle ∧
      (after (before ++ later)).isExpired handle =
        (after (before ++ .cancel other :: later)).isExpired handle := by
  have hwithout : after (before ++ later) = later.foldl perform (after before) :=
    List.foldl_append
  have hwith : after (before ++ .cancel other :: later) =
      later.foldl perform ((after before).perform (.cancel other)) :=
    List.foldl_append
  cases hstopped : (after before).handles[other]? with
  | none =>
    have hsame : (after before).perform (.cancel other) = after before := by
      rw [perform, cancel, hstopped]
    rw [hsame, ← hwithout] at hwith
    rw [← hwith]
    exact ⟨hwith ▸ hplace, rfl⟩
  | some stopped =>
    have hlater := getElem?_handles (List.prefix_append before (.cancel other :: later)) hstopped
    have halike := (alikeBut_cancel hstopped).foldl later
    rw [← hwithout, ← hwith] at halike
    exact ⟨halike.handles ▸ hplace, isExpired_eq_of_alikeBut halike fun hfamily =>
      hother ((sameFamily_iff hlater hplace).mpr hfamily.symm)⟩

/-- **What a cancellation reaches.** After any operations each deadline that was given out is over if
and only if its time limit has passed since its family began, or one of its family was cancelled. It
is checked without a complaint until then, and from then on with one that tells the time limit with
which its family began. A cancellation in another family might as well not have been. Whatever is
done next, the deadline keeps its place, and is over forever once it is over. -/
theorem cancellation_exact (history : List Operation) (place : Nat) (hplace : place < given history) :
    ∃ handle, (after history).handles[place]? = some handle ∧
      ((after history).isExpired handle = true ↔
        IsReached history place ∨ IsCancelled history place) ∧
      (∃ limit, (∀ limit', IsLimit history place limit' ↔ limit' = limit) ∧
        (after history).check handle =
          if (after history).isExpired handle then .error (.executionTimeout limit) else .ok ()) ∧
      (∀ before other later, history = before ++ .cancel other :: later →
        ¬ SameFamily history other place →
        (after (before ++ later)).handles[place]? = some handle ∧
          (after (before ++ later)).isExpired handle = (after history).isExpired handle) ∧
      ∀ later, (after (history ++ later)).handles[place]? = some handle ∧
        ((after history).isExpired handle = true →
          (after (history ++ later)).isExpired handle = true) := by
  rw [← length_handles_after] at hplace
  have hhandle := List.getElem?_eq_getElem hplace
  refine ⟨_, hhandle, isExpired_iff hhandle, ⟨_, isLimit_iff hhandle, rfl⟩, ?_, fun later => ?_⟩
  · rintro before other later rfl hother
    exact without_cancel hhandle hother
  · exact ⟨getElem?_handles (List.prefix_append _ _) hhandle, fun h => isExpired_append h later⟩

/-- A deadline that is cancelled by way of its clone and cloned once more after that, and another one
that is given out in between. -/
def sharing : List Operation :=
  [.addAfter 5, .addAfter 9, .clone 0, .cancel 2, .clone 0, .wait 3]

/-- The clone made after the cancellation is over. The deadline of the other family is not, and would
not be without the cancellation either. -/
theorem cancellation_sharing :
    (∃ handle, (after sharing).handles[3]? = some handle ∧ IsCancelled sharing 3 ∧
      (after sharing).isExpired handle = true ∧
      (after sharing).check handle = .error (.executionTimeout 5)) ∧
    ∃ handle, (after sharing).handles[1]? = some handle ∧ ¬ IsCancelled sharing 1 ∧
      (after sharing).check handle = .ok () ∧
      (after (sharing.eraseIdx 3)).isExpired handle = false := by
  constructor
  · obtain ⟨handle, hhandle, hover, ⟨limit, hlimit, hcheck⟩, -, -⟩ :=
      cancellation_exact sharing 3 (by decide)
    have hearly : IsClone sharing 2 0 := ⟨by decide, 0, sharing.take 2, by decide, rfl, rfl⟩
    have hlate : IsClone sharing 3 0 := ⟨by decide, 0, sharing.take 4, by decide, rfl, rfl⟩
    have hroot : SameFamily sharing 0 3 := .symm _ _ (.rel _ _ hlate)
    have hcancelled : IsCancelled sharing 3 :=
      ⟨2, 3, 0, ⟨sharing.take 3, by decide, rfl, rfl⟩, by decide,
        .trans _ _ _ (.rel _ _ hearly) hroot⟩
    have hexpired := hover.mpr (Or.inr hcancelled)
    have hfive : 5 = limit :=
      (hlimit 5).mp ⟨.addAfter 5, 0, 0, ⟨[], by decide, rfl, rfl⟩, rfl, hroot⟩
    rw [hexpired, ← hfive] at hcheck
    exact ⟨handle, hhandle, hcancelled, hexpired, hcheck⟩
  · obtain ⟨handle, hhandle, hover, ⟨limit, -, hcheck⟩, hwithout, -⟩ :=
      cancellation_exact sharing 1 (by decide)
    have hother : ¬ SameFamily sharing 2 1 := fun h => absurd h.getElem?_eq (by decide)
    have hhandle' : (after sharing).handles[1]? = some ⟨.after 0 9, 1⟩ := by decide
    obtain rfl := Option.some.inj (hhandle.symm.trans hhandle')
    have hnot : (after sharing).isExpired ⟨.after 0 9, 1⟩ = false := by decide
    rw [hnot] at hover hcheck
    refine ⟨_, hhandle, fun h => absurd (hover.mpr (Or.inr h)) Bool.false_ne_true, hcheck, ?_⟩
    exact (hwithout (sharing.take 3) 2 (sharing.drop 4) rfl hother).2.trans hnot

end Deadlines

end TradingRules.Sandbox
