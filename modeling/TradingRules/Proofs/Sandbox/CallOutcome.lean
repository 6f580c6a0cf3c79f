/-
# What comes of a call

A worker may do anything, and worker, clock and caller act in any order. What comes of a call is told
by what happens in its history while the caller still waits: the worker ends with a result, it ends
without one, or the caller finds time to be over. Nothing that happens later makes a difference, and
the deadline is cancelled only by a caller that finds time to be over, or by the worker itself.

All that an event can do to a call is listed once, case by case. Every invariant is a case analysis
over that list.
-/
import TradingRules.Proofs.Sandbox.TimedCall

namespace TradingRules.Sandbox.Call

section Fates

variable {σ α : Type} (limits : Limits) (w : Worker σ α)

/-! ## What an event does -/

/-- The worker is at work, and this is its next move. -/
def NextMove (m : Move σ α) (c : Call σ α) : Prop :=
  ∃ state, c.worker = some state ∧ w.move state = m

/-- The caller waits in vain: it finds no message, the worker is still at work and time is over. -/
structure IsInVain (c : Call σ α) : Prop where
  answer : c.answer = none
  message : c.message = none
  worker : ∃ state, c.worker = some state
  late : limits.timeoutMs ≤ c.elapsed

/-- What an event can do to a call. -/
inductive Turns : Call σ α → Event → Call σ α → Prop
  | tick (c : Call σ α) : Turns c .tick { c with elapsed := c.elapsed + 1 }
  | rest {c : Call σ α} (hworker : c.worker = none) : Turns c .work c
  | goOn {c : Call σ α} {state : σ} (next : σ) (hworker : c.worker = some state) :
      Turns c .work { c with worker := some next }
  | cancel {c : Call σ α} {next : σ} (hmove : NextMove w (.cancel next) c) :
      Turns c .work { c with worker := some next, cancelled := true }
  | finish {c : Call σ α} {result : Except Error α} (hmove : NextMove w (.finish result) c) :
      Turns c .work
        { c with worker := none, message := if c.answer.isSome then none else some result }
  | crash {c : Call σ α} (hmove : NextMove w .crash c) : Turns c .work { c with worker := none }
  | stay {c : Call σ α} {result : Except Error α} (hanswer : c.answer = some result) :
      Turns c .wake c
  | take {c : Call σ α} {result : Except Error α} (hanswer : c.answer = none)
      (hmessage : c.message = some result) :
      Turns c .wake { c with message := none, answer := some result }
  | learn {c : Call σ α} (hanswer : c.answer = none) (hmessage : c.message = none)
      (hworker : c.worker = none) :
      Turns c .wake { c with answer := some (.error lostWorker) }
  | giveUp {c : Call σ α} (hvain : IsInVain limits c) :
      Turns c .wake { c with cancelled := true, answer := some (.error (deadline limits).timeout) }
  | waitOn {c : Call σ α} {state : σ} (hanswer : c.answer = none) (hmessage : c.message = none)
      (hworker : c.worker = some state) : Turns c .wake c

variable {limits w}

/-- Every event does one of these things. -/
theorem turns_step (c : Call σ α) (e : Event) : Turns limits w c e (c.step limits w e) := by
  cases e with
  | tick => exact .tick c
  | work =>
    rw [step, work]
    split
    · rename_i hworker
      exact .rest hworker
    · rename_i state hworker
      split
      · exact .goOn _ hworker
      · exact .goOn _ hworker
      · rename_i next hmove
        exact .cancel ⟨state, hworker, hmove⟩
      · rename_i result hmove
        exact .finish ⟨state, hworker, hmove⟩
      · rename_i hmove
        exact .crash ⟨state, hworker, hmove⟩
  | wake =>
    cases hanswer : c.answer with
    | some taken =>
      rw [step, wake_of_answer hanswer]
      exact .stay hanswer
    | none =>
      cases hmessage : c.message with
      | some result =>
        rw [step, wake_of_message hanswer hmessage]
        exact .take hanswer hmessage
      | none =>
        cases hworker : c.worker with
        | none =>
          rw [step, wake_of_gone hanswer hmessage hworker]
          exact .learn hanswer hmessage hworker
        | some state =>
          rw [step, wake_of_worker hanswer hmessage hworker]
          split_ifs with hover
          · exact .giveUp ⟨hanswer, hmessage, ⟨state, hworker⟩, hover⟩
          · exact .waitOn hanswer hmessage hworker

/-- The last event of a history does one of these things to the call before it. -/
theorem turns_after (history : List Event) (e : Event) :
    Turns limits w (after limits w history) e (after limits w (history ++ [e])) := by
  rw [after_concat]
  exact turns_step _ e

/-! ## What the events keep -/

/-- A message is there only when the worker has gone and the caller still waits. -/
def IsOrderly (c : Call σ α) : Prop :=
  ∀ result, c.message = some result → c.worker = none ∧ c.answer = none

/-- In an orderly call a worker at work has sent nothing. -/
theorem IsOrderly.message_eq_none {c : Call σ α} (h : IsOrderly c) {state : σ}
    (hworker : c.worker = some state) : c.message = none := by
  rw [Option.eq_none_iff_forall_ne_some]
  intro result hmessage
  rw [(h result hmessage).1] at hworker
  cases hworker

theorem IsOrderly.turn {c c' : Call σ α} {e : Event} (h : IsOrderly c)
    (hturn : Turns limits w c e c') : IsOrderly c' := by
  -- a worker that makes a move has sent nothing before
  have hquiet {m : Move σ α} (hmove : NextMove w m c) : c.message = none := by
    obtain ⟨state, hworker, -⟩ := hmove
    exact h.message_eq_none hworker
  intro result hmessage
  cases hturn with
  | tick => exact h result hmessage
  | rest hworker => exact h result hmessage
  | goOn next hworker =>
    rw [h.message_eq_none hworker] at hmessage
    cases hmessage
  | cancel hmove =>
    rw [hquiet hmove] at hmessage
    cases hmessage
  | finish hmove =>
    cases hanswer : c.answer with
    | none => exact ⟨rfl, rfl⟩
    | some taken =>
      rw [hanswer] at hmessage
      cases hmessage
  | crash hmove =>
    rw [hquiet hmove] at hmessage
    cases hmessage
  | stay hanswer => exact h result hmessage
  | take hanswer htaken => cases hmessage
  | learn hanswer hnone hworker =>
    rw [hnone] at hmessage
    cases hmessage
  | giveUp hvain =>
    rw [hvain.message] at hmessage
    cases hmessage
  | waitOn hanswer hnone hworker => exact h result hmessage

/-- A call is orderly after every history. -/
theorem isOrderly_after (history : List Event) : IsOrderly (after limits w history) := by
  refine after_induction (P := fun _ c => IsOrderly c) ?_ ?_ history
  · intro result hmessage
    cases hmessage
  · exact fun _ e h => h.turn (turns_step _ e)

/-- The worker has gone without a message, and the caller learns so. -/
structure IsLost (c : Call σ α) : Prop where
  worker : c.worker = none
  message : c.message = none
  answer : c.answer = none ∨ c.answer = some (.error lostWorker)

/-- A worker that is lost stays so. -/
theorem IsLost.turn {c c' : Call σ α} {e : Event} (h : IsLost c) (hturn : Turns limits w c e c') :
    IsLost c' := by
  have hgone {m : Move σ α} (hmove : NextMove w m c) : False := by
    obtain ⟨state, hworker, -⟩ := hmove
    rw [h.worker] at hworker
    cases hworker
  cases hturn with
  | tick => exact ⟨h.worker, h.message, h.answer⟩
  | rest hworker => exact h
  | goOn next hworker =>
    rw [h.worker] at hworker
    cases hworker
  | cancel hmove => exact (hgone hmove).elim
  | finish hmove => exact (hgone hmove).elim
  | crash hmove => exact (hgone hmove).elim
  | stay hanswer => exact h
  | take hanswer hmessage =>
    rw [h.message] at hmessage
    cases hmessage
  | learn hanswer hmessage hworker => exact ⟨h.worker, h.message, Or.inr rfl⟩
  | giveUp hvain =>
    obtain ⟨state, hworker⟩ := hvain.worker
    rw [h.worker] at hworker
    cases hworker
  | waitOn hanswer hmessage hworker => exact h

/-- The caller of a lost worker is told so. -/
theorem IsLost.outcome {c : Call σ α} (h : IsLost c) : c.outcome limits = .error lostWorker := by
  rcases h.answer with hanswer | hanswer
  · exact outcome_of_gone hanswer h.message h.worker
  · exact outcome_of_answer hanswer

/-- The caller has stopped waiting because time was over, and has cancelled the deadline. -/
structure IsGivenUp (limits : Limits) (c : Call σ α) : Prop where
  answer : c.answer = some (.error (.executionTimeout limits.timeoutMs))
  cancelled : c.cancelled = true

/-- A call that is given up stays so. -/
theorem IsGivenUp.turn {c c' : Call σ α} {e : Event} (h : IsGivenUp limits c)
    (hturn : Turns limits w c e c') : IsGivenUp limits c' := by
  have hanswered (hanswer : c.answer = none) : False := by
    rw [h.answer] at hanswer
    cases hanswer
  cases hturn with
  | tick => exact ⟨h.answer, h.cancelled⟩
  | rest hworker => exact h
  | goOn next hworker => exact ⟨h.answer, h.cancelled⟩
  | cancel hmove => exact ⟨h.answer, rfl⟩
  | finish hmove => exact ⟨h.answer, h.cancelled⟩
  | crash hmove => exact ⟨h.answer, h.cancelled⟩
  | stay hanswer => exact h
  | take hanswer hmessage => exact (hanswered hanswer).elim
  | learn hanswer hmessage hworker => exact (hanswered hanswer).elim
  | giveUp hvain => exact (hanswered hvain.answer).elim
  | waitOn hanswer hmessage hworker => exact h

/-! ## What happens in a history -/

variable (limits w)

/-- At some moment of a history an event finds the call in a certain state. -/
def Meets (history : List Event) (e : Event) (P : Call σ α → Prop) : Prop :=
  ∃ before later, history = before ++ e :: later ∧ P (after limits w before)

/-- The worker ends with a result while the caller waits. -/
def Sends (history : List Event) (result : Except Error α) : Prop :=
  Meets limits w history .work fun c => c.answer = none ∧ NextMove w (.finish result) c

/-- The worker ends without a result while the caller waits. -/
def Breaks (history : List Event) : Prop :=
  Meets limits w history .work fun c => c.answer = none ∧ NextMove w .crash c

/-- The wait of the caller times out. -/
def TimesOut (history : List Event) : Prop :=
  Meets limits w history .wake (IsInVain limits)

/-- The worker cancels its own deadline. -/
def Cancels (history : List Event) : Prop :=
  Meets limits w history .work fun c => ∃ next, NextMove w (.cancel next) c

variable {limits w} {history : List Event}

/-- An event of a longer history is one of the history, or the last one. -/
theorem meets_concat {last e : Event} {P : Call σ α → Prop} :
    Meets limits w (history ++ [last]) e P ↔
      Meets limits w history e P ∨ last = e ∧ P (after limits w history) := by
  constructor
  · rintro ⟨before, later, hsplit, hP⟩
    rcases List.eq_nil_or_concat later with rfl | ⟨later, final, rfl⟩
    · obtain ⟨rfl, hlast⟩ := List.append_inj' hsplit rfl
      cases hlast
      exact Or.inr ⟨rfl, hP⟩
    · rw [List.concat_eq_append, ← List.cons_append, ← List.append_assoc] at hsplit
      obtain ⟨rfl, -⟩ := List.append_inj' hsplit rfl
      exact Or.inl ⟨before, later, rfl, hP⟩
  · rintro (⟨before, later, rfl, hP⟩ | ⟨rfl, hP⟩)
    · exact ⟨before, later ++ [last], by rw [List.append_assoc, List.cons_append], hP⟩
    · exact ⟨history, [], rfl, hP⟩

/-- What has happened in a history has happened when it goes on. -/
theorem Meets.concat {last e : Event} {P : Call σ α → Prop} (h : Meets limits w history e P) :
    Meets limits w (history ++ [last]) e P :=
  meets_concat.mpr (Or.inl h)

/-- What an event brings about and all events keep is there in the end. -/
theorem Meets.kept {e : Event} {P Q : Call σ α → Prop} (h : Meets limits w history e P)
    (hnow : ∀ c, IsOrderly c → P c → Q (c.step limits w e))
    (hkept : ∀ c later c', Q c → Turns limits w c later c' → Q c') : Q (after limits w history) := by
  obtain ⟨before, later, rfl, hP⟩ := h
  induction later using List.reverseRecOn with
  | nil =>
    rw [after_concat]
    exact hnow _ (isOrderly_after before) hP
  | append_singleton front last ih =>
    rw [← List.cons_append, ← List.append_assoc]
    exact hkept _ last _ ih (turns_after _ last)

/-- A result that is sent while the caller waits is settled. -/
theorem Sends.isSettled {result : Except Error α} (h : Sends limits w history result) :
    IsSettled result (after limits w history) := by
  obtain ⟨before, later, rfl, hanswer, state, hworker, hmove⟩ := h
  have hsent : IsSettled result (after limits w (before ++ [.work])) := by
    rw [after_concat, step, work, hworker]
    simp only [hmove, hanswer]
    exact Or.inr ⟨rfl, rfl, rfl⟩
  have := hsent.after_append later
  rwa [List.append_assoc] at this

/-- A worker that ends without a result is lost. -/
theorem Breaks.isLost (h : Breaks limits w history) : IsLost (after limits w history) := by
  refine h.kept ?_ fun c later c' hlost => hlost.turn
  rintro c horderly ⟨hanswer, state, hworker, hmove⟩
  rw [step, work, hworker]
  simp only [hmove]
  exact ⟨rfl, horderly.message_eq_none hworker, Or.inl hanswer⟩

/-- A call whose wait times out is given up. -/
theorem TimesOut.isGivenUp (h : TimesOut limits w history) :
    IsGivenUp limits (after limits w history) := by
  refine h.kept ?_ fun c later c' hgivenUp => hgivenUp.turn
  rintro c - ⟨hanswer, hmessage, ⟨state, hworker⟩, hover⟩
  rw [step, wake_of_worker hanswer hmessage hworker, if_pos hover]
  exact ⟨rfl, rfl⟩

/-- The worker is at work, and the caller waits. -/
structure IsOpen (c : Call σ α) : Prop where
  worker : ∃ state, c.worker = some state
  message : c.message = none
  answer : c.answer = none

variable (limits w)

/-- Some end has come to a call: a result, the end of the worker without one, or the end of the
caller's patience. -/
inductive Ended (history : List Event) : Prop
  | sent (result : Except Error α) (h : Sends limits w history result)
  | lost (h : Breaks limits w history)
  | late (h : TimesOut limits w history)

variable {limits w}

theorem Ended.concat (h : Ended limits w history) (last : Event) :
    Ended limits w (history ++ [last]) := by
  cases h with
  | sent result h => exact .sent result h.concat
  | lost h => exact .lost h.concat
  | late h => exact .late h.concat

/-- A call to which an end has come is not open. -/
theorem Ended.not_isOpen (h : Ended limits w history) : ¬ IsOpen (after limits w history) := by
  rintro ⟨⟨state, hworker⟩, hmessage, hanswer⟩
  cases h with
  | sent result h =>
    rcases h.isSettled with htaken | ⟨-, hsent, -⟩
    · rw [hanswer] at htaken
      cases htaken
    · rw [hmessage] at hsent
      cases hsent
  | lost h =>
    rw [h.isLost.worker] at hworker
    cases hworker
  | late h =>
    rw [h.isGivenUp.answer] at hanswer
    cases hanswer

/-- As long as no end has come, the worker is at work and the caller waits. -/
theorem ended_or_isOpen (history : List Event) :
    Ended limits w history ∨ IsOpen (after limits w history) := by
  induction history using List.reverseRecOn with
  | nil => exact Or.inr ⟨⟨w.start, rfl⟩, rfl, rfl⟩
  | append_singleton front e ih =>
    rcases ih with hended | hopen
    · exact Or.inl (hended.concat e)
    have hnow {P : Call σ α → Prop} (hP : P (after limits w front)) :
        Meets limits w (front ++ [e]) e P :=
      meets_concat.mpr (Or.inr ⟨rfl, hP⟩)
    have hturn : Turns limits w (after limits w front) e (after limits w (front ++ [e])) :=
      turns_after front e
    generalize after limits w (front ++ [e]) = c' at hturn ⊢
    cases hturn with
    | tick => exact Or.inr ⟨hopen.worker, hopen.message, hopen.answer⟩
    | rest hworker => exact Or.inr hopen
    | goOn next hworker => exact Or.inr ⟨⟨next, rfl⟩, hopen.message, hopen.answer⟩
    | cancel hmove => exact Or.inr ⟨⟨_, rfl⟩, hopen.message, hopen.answer⟩
    | finish hmove => exact Or.inl (.sent _ (hnow ⟨hopen.answer, hmove⟩))
    | crash hmove => exact Or.inl (.lost (hnow ⟨hopen.answer, hmove⟩))
    | stay hanswer =>
      rw [hopen.answer] at hanswer
      cases hanswer
    | take hanswer hmessage =>
      rw [hopen.message] at hmessage
      cases hmessage
    | learn hanswer hmessage hworker =>
      obtain ⟨state, hstate⟩ := hopen.worker
      rw [hworker] at hstate
      cases hstate
    | giveUp hvain => exact Or.inl (.late (hnow hvain))
    | waitOn hanswer hmessage hworker => exact Or.inr hopen

/-- The deadline is cancelled only by a caller whose wait times out, or by the worker itself. -/
theorem timesOut_or_cancels (h : (after limits w history).cancelled = true) :
    TimesOut limits w history ∨ Cancels limits w history := by
  induction history using List.reverseRecOn with
  | nil => cases h
  | append_singleton front e ih =>
    have hbefore (h : (after limits w front).cancelled = true) :
        TimesOut limits w (front ++ [e]) ∨ Cancels limits w (front ++ [e]) :=
      (ih h).imp Meets.concat Meets.concat
    have hturn : Turns limits w (after limits w front) e (after limits w (front ++ [e])) :=
      turns_after front e
    generalize after limits w (front ++ [e]) = c' at hturn h
    cases hturn with
    | tick => exact hbefore h
    | rest hworker => exact hbefore h
    | goOn next hworker => exact hbefore h
    | cancel hmove => exact Or.inr (meets_concat.mpr (Or.inr ⟨rfl, _, hmove⟩))
    | finish hmove => exact hbefore h
    | crash hmove => exact hbefore h
    | stay hanswer => exact hbefore h
    | take hanswer hmessage => exact hbefore h
    | learn hanswer hmessage hworker => exact hbefore h
    | giveUp hvain => exact Or.inl (meets_concat.mpr (Or.inr ⟨rfl, hvain⟩))
    | waitOn hanswer hmessage hworker => exact hbefore h

/-! ## What the caller gets -/

/-- What the caller has got is settled. -/
theorem IsSettled.eq_of_answer {c : Call σ α} {result taken : Except Error α}
    (h : IsSettled result c) (htaken : c.answer = some taken) : taken = result := by
  rcases h with hanswer | ⟨hanswer, -, -⟩
  · rw [hanswer] at htaken
    exact (Option.some.inj htaken).symm
  · rw [hanswer] at htaken
    cases htaken

/-- What the caller has got is the worker's own result, the notice that there is none, or the notice
that time is over. -/
theorem answer_cases {result : Except Error α}
    (h : (after limits w history).answer = some result) :
    Sends limits w history result ∨
      Breaks limits w history ∧ result = .error lostWorker ∨
      TimesOut limits w history ∧ result = .error (.executionTimeout limits.timeoutMs) := by
  rcases ended_or_isOpen history with hended | hopen
  · cases hended with
    | sent sent hsends =>
      rw [hsends.isSettled.eq_of_answer h]
      exact Or.inl hsends
    | lost hbreaks =>
      rcases hbreaks.isLost.answer with hanswer | hanswer
      · rw [hanswer] at h
        cases h
      · rw [hanswer] at h
        cases h
        exact Or.inr (Or.inl ⟨hbreaks, rfl⟩)
    | late hlate =>
      rw [hlate.isGivenUp.answer] at h
      cases h
      exact Or.inr (Or.inr ⟨hlate, rfl⟩)
  · rw [hopen.answer] at h
    cases h

variable (limits w)

/-- What a call comes to, if its caller waits as long as it may: the result that the worker sends in
time, the notice that it ended without one, or, if neither happens, the notice that time is over. -/
structure ComesTo (history : List Event) (result : Except Error α) : Prop where
  sent : ∀ sent, Sends limits w history sent → result = sent
  lost : Breaks limits w history → result = .error lostWorker
  late : (∀ sent, ¬ Sends limits w history sent) → ¬ Breaks limits w history →
    result = .error (.executionTimeout limits.timeoutMs)

variable {limits w}

/-- An open call comes to the notice that time is over. -/
theorem IsOpen.outcome {c : Call σ α} (h : IsOpen c) :
    c.outcome limits = .error (.executionTimeout limits.timeoutMs) := by
  obtain ⟨state, hworker⟩ := h.worker
  exact outcome_of_worker h.answer h.message hworker

/-- A caller that wakes up gets at once what it gets in the end, unless the call is open and time is
not over. -/
theorem answer_wake {c : Call σ α} (h : IsOpen c → limits.timeoutMs ≤ c.elapsed) :
    (c.wake limits).answer = some (c.outcome limits) := by
  cases hanswer : c.answer with
  | some taken => rw [wake_of_answer hanswer, outcome_of_answer hanswer, hanswer]
  | none =>
    cases hmessage : c.message with
    | some sent => rw [wake_of_message hanswer hmessage, outcome_of_message hanswer hmessage]
    | none =>
      cases hworker : c.worker with
      | none =>
        rw [wake_of_gone hanswer hmessage hworker, outcome_of_gone hanswer hmessage hworker]
      | some state =>
        have hover : limits.timeoutMs ≤ c.elapsed := h ⟨⟨state, hworker⟩, hmessage, hanswer⟩
        rw [wake_of_worker hanswer hmessage hworker, if_pos hover,
          outcome_of_worker hanswer hmessage hworker]
        rfl

/-- Timed work comes to what its history tells. -/
theorem comesTo_runTimed (limits : Limits) (history : List Event) (w : Worker σ α) :
    ComesTo limits w history (runTimed limits history w) where
  sent _ hsends := hsends.isSettled.outcome
  lost hbreaks := hbreaks.isLost.outcome
  late hsends hbreaks := by
    rcases ended_or_isOpen history with hended | hopen
    · cases hended with
      | sent sent h => exact absurd h (hsends sent)
      | lost h => exact absurd h hbreaks
      | late h => exact outcome_of_answer h.isGivenUp.answer
    · exact hopen.outcome

end Fates

end TradingRules.Sandbox.Call
