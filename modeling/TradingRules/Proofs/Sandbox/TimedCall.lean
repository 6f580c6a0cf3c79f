/-
# Timed calls in every history

Worker, clock and caller act in any order, so what is said of a call is proved for each event and
then for every history. Two facts carry the rest: once a result is settled no event changes it, and
a worker that goes through a watched computation comes to the value of the computation or to the
notice that time is over, which in turn it only sends when time is over.
-/
import Mathlib.Data.List.Induction
import TradingRules.Sandbox.Evaluation

namespace TradingRules.Sandbox

/-- The milliseconds that pass in a history. -/
def ticks (history : List Event) : Nat := history.count .tick

/-- The moves that a worker is given in a history. -/
def moves (history : List Event) : Nat := history.count .work

/-- The time in a history that goes on by one event. -/
theorem ticks_concat (history : List Event) (e : Event) :
    ticks (history ++ [e]) = ticks history + if e = .tick then 1 else 0 := by
  cases e <;> simp [ticks]

/-- Time does not run backwards. -/
theorem ticks_le_concat (history : List Event) (e : Event) :
    ticks history ≤ ticks (history ++ [e]) := by
  rw [ticks_concat]
  exact Nat.le_add_right _ _

/-- The moves in a history that goes on by one event. -/
theorem moves_concat (history : List Event) (e : Event) :
    moves (history ++ [e]) = moves history + if e = .work then 1 else 0 := by
  cases e <;> simp [moves]

namespace Call

section Histories

variable {σ α : Type} {limits : Limits} {w : Worker σ α}

/-- After a longer history one more event has acted. -/
theorem after_concat (history : List Event) (e : Event) :
    after limits w (history ++ [e]) = (after limits w history).step limits w e := by
  rw [after, List.foldl_append]
  rfl

/-- A caller with an answer does not look any more. -/
theorem wake_of_answer {c : Call σ α} {result : Except Error α} (h : c.answer = some result) :
    c.wake limits = c := by
  simp only [wake, h]

/-- A caller that finds a message takes it, also when time is over. -/
theorem wake_of_message {c : Call σ α} {result : Except Error α} (hanswer : c.answer = none)
    (hmessage : c.message = some result) :
    c.wake limits = { c with message := none, answer := some result } := by
  simp only [wake, hanswer, hmessage]

/-- A caller that finds no message from a worker at work stops waiting when time is over. -/
theorem wake_of_worker {c : Call σ α} {state : σ} (hanswer : c.answer = none)
    (hmessage : c.message = none) (hworker : c.worker = some state) :
    c.wake limits = if limits.timeoutMs ≤ c.elapsed
      then { c with cancelled := true, answer := some (.error (deadline limits).timeout) }
      else c := by
  simp only [wake, hanswer, hmessage, hworker, Option.isNone_some, Bool.false_eq_true, if_false]

/-- A caller that finds no message from a worker that has gone is told so. -/
theorem wake_of_gone {c : Call σ α} (hanswer : c.answer = none) (hmessage : c.message = none)
    (hworker : c.worker = none) :
    c.wake limits = { c with answer := some (.error lostWorker) } := by
  simp only [wake, hanswer, hmessage, hworker, Option.isNone_none, if_true]

/-- A caller with an answer has it in the end. -/
theorem outcome_of_answer {c : Call σ α} {result : Except Error α} (h : c.answer = some result) :
    c.outcome limits = result := by
  rw [outcome, wake_of_answer (c := { c with elapsed := c.elapsed + limits.timeoutMs }) h, h]
  rfl

/-- A message that is on its way arrives in the end. -/
theorem outcome_of_message {c : Call σ α} {result : Except Error α} (hanswer : c.answer = none)
    (hmessage : c.message = some result) : c.outcome limits = result := by
  rw [outcome, wake_of_message (c := { c with elapsed := c.elapsed + limits.timeoutMs }) hanswer
    hmessage]
  rfl

/-- A caller whose worker has gone without a message is told so in the end. -/
theorem outcome_of_gone {c : Call σ α} (hanswer : c.answer = none) (hmessage : c.message = none)
    (hworker : c.worker = none) : c.outcome limits = .error lostWorker := by
  rw [outcome, wake_of_gone (c := { c with elapsed := c.elapsed + limits.timeoutMs }) hanswer
    hmessage hworker]
  rfl

/-- A caller whose worker is still at work learns in the end that time is over. -/
theorem outcome_of_worker {c : Call σ α} {state : σ} (hanswer : c.answer = none)
    (hmessage : c.message = none) (hworker : c.worker = some state) :
    c.outcome limits = .error (.executionTimeout limits.timeoutMs) := by
  rw [outcome, wake_of_worker (c := { c with elapsed := c.elapsed + limits.timeoutMs }) hanswer
    hmessage hworker, if_pos (Nat.le_add_left limits.timeoutMs c.elapsed)]
  rfl

/-- What holds at the beginning of a call and is preserved by every event that follows a history
holds after every history. -/
theorem after_induction {P : List Event → Call σ α → Prop}
    (hbegin : P [] (begin w))
    (hstep : ∀ history e, P history (after limits w history) →
      P (history ++ [e]) ((after limits w history).step limits w e))
    (history : List Event) : P history (after limits w history) := by
  induction history using List.reverseRecOn with
  | nil => exact hbegin
  | append_singleton front e ih =>
    rw [after_concat]
    exact hstep front e ih

/-- No time passes while the worker makes a move. -/
theorem elapsed_work (c : Call σ α) : (c.work limits w).elapsed = c.elapsed := by
  unfold work
  split
  · rfl
  · split <;> rfl

/-- No time passes while the caller looks. -/
theorem elapsed_wake (c : Call σ α) : (c.wake limits).elapsed = c.elapsed := by
  unfold wake
  split
  · rfl
  · split
    · rfl
    · split_ifs <;> rfl

/-- The time that a call has taken is the time that has passed in its history. -/
theorem elapsed_after (history : List Event) :
    (after limits w history).elapsed = ticks history := by
  refine after_induction (P := fun history c => c.elapsed = ticks history) rfl ?_ history
  intro front e ih
  rw [ticks_concat, ← ih]
  cases e with
  | tick => rfl
  | work => exact elapsed_work _
  | wake => exact elapsed_wake _

/-- The result of a call is settled: the caller has it, or it is on its way and the worker has
gone. -/
def IsSettled (result : Except Error α) (c : Call σ α) : Prop :=
  c.answer = some result ∨ c.answer = none ∧ c.message = some result ∧ c.worker = none

/-- No event changes a settled result. -/
theorem IsSettled.step {result : Except Error α} {c : Call σ α} (h : IsSettled result c)
    (e : Event) : IsSettled result (c.step limits w e) := by
  rcases h with hanswer | ⟨hanswer, hmessage, hworker⟩
  · left
    cases e with
    | tick => exact hanswer
    | work =>
      rw [Call.step, work]
      split
      · exact hanswer
      · split <;> exact hanswer
    | wake =>
      rw [Call.step, wake_of_answer hanswer]
      exact hanswer
  · cases e with
    | tick => exact Or.inr ⟨hanswer, hmessage, hworker⟩
    | work =>
      rw [Call.step, work, hworker]
      exact Or.inr ⟨hanswer, hmessage, hworker⟩
    | wake =>
      rw [Call.step, wake_of_message hanswer hmessage]
      exact Or.inl rfl

/-- A result that is settled at some moment is still settled when the history goes on. -/
theorem IsSettled.after_append {result : Except Error α} {early : List Event}
    (h : IsSettled result (after limits w early)) (late : List Event) :
    IsSettled result (after limits w (early ++ late)) := by
  induction late using List.reverseRecOn with
  | nil => rwa [List.append_nil]
  | append_singleton front e ih =>
    rw [← List.append_assoc, after_concat]
    exact ih.step e

/-- The caller gets a settled result. -/
theorem IsSettled.outcome {result : Except Error α} {c : Call σ α} (h : IsSettled result c) :
    c.outcome limits = result := by
  rcases h with hanswer | ⟨hanswer, hmessage, -⟩
  · exact outcome_of_answer hanswer
  · exact outcome_of_message hanswer hmessage

end Histories

/-! ## Watched computations -/

section Watching

variable {α : Type} {limits : Limits} {m : Watched α}

/-- What may come of a computation in a history: its value, or the notice that time is over, if it
is. -/
def IsTimely (limits : Limits) (v : α) (history : List Event) (result : Except Error α) : Prop :=
  result = .ok v ∨
    limits.timeoutMs ≤ ticks history ∧ result = .error (.executionTimeout limits.timeoutMs)

/-- A call keeps to a computation: what its worker has still to do is the rest of the computation,
and every message and answer is timely. -/
structure KeepsTo (limits : Limits) (m : Watched α) (history : List Event)
    (c : Call (Option (Watched α)) α) : Prop where
  cancelled : c.cancelled = true → limits.timeoutMs ≤ ticks history
  atWork : ∀ rest, c.worker = some (some rest) →
    rest.value = m.value ∧ rest.looks + moves history = m.looks
  givenUp : c.worker = some none → limits.timeoutMs ≤ ticks history
  served : c.worker = none → ∃ result, IsSettled result c
  message : ∀ result, c.message = some result → IsTimely limits m.value history result
  answer : ∀ result, c.answer = some result → IsTimely limits m.value history result

/-- What is timely remains so. -/
theorem IsTimely.concat {v : α} {history : List Event} {result : Except Error α}
    (h : IsTimely limits v history result) (e : Event) :
    IsTimely limits v (history ++ [e]) result := by
  rcases h with h | ⟨hover, h⟩
  · exact Or.inl h
  · exact Or.inr ⟨Nat.le_trans hover (ticks_le_concat history e), h⟩

/-- A call keeps to its computation at the beginning. -/
theorem KeepsTo.begin : KeepsTo limits m [] (begin (watching (deadline limits) m)) where
  cancelled h := by cases h
  atWork rest h := by
    cases h
    exact ⟨rfl, rfl⟩
  givenUp h := by cases h
  served h := by cases h
  message result h := by cases h
  answer result h := by cases h

variable {history : List Event} {c : Call (Option (Watched α)) α}

/-- A call that an event leaves as it is keeps to its computation, provided that a worker that is
given a move has gone. -/
theorem KeepsTo.still (h : KeepsTo limits m history c) {e : Event}
    (hwork : e = .work → c.worker = none) : KeepsTo limits m (history ++ [e]) c where
  cancelled hc := Nat.le_trans (h.cancelled hc) (ticks_le_concat history _)
  atWork rest hw := by
    by_cases he : e = .work
    · rw [hwork he] at hw
      cases hw
    · rw [moves_concat, if_neg he]
      exact h.atWork rest hw
  givenUp hw := Nat.le_trans (h.givenUp hw) (ticks_le_concat history _)
  served hw := h.served hw
  message result hm := (h.message result hm).concat e
  answer result ha := (h.answer result ha).concat e

/-- A call keeps to its computation while time passes. -/
theorem KeepsTo.tick (h : KeepsTo limits m history c) :
    KeepsTo limits m (history ++ [.tick]) { c with elapsed := c.elapsed + 1 } := by
  have hstill : KeepsTo limits m (history ++ [.tick]) c := h.still nofun
  -- only the clock is another one, and nothing is said of it
  exact { hstill with }

/-- A call keeps to its computation when its worker ends with a timely result. -/
theorem KeepsTo.finish (h : KeepsTo limits m history c) {result : Except Error α}
    (hresult : IsTimely limits m.value history result) :
    KeepsTo limits m (history ++ [.work])
      { c with worker := none, message := if c.answer.isSome then none else some result } where
  cancelled hc := Nat.le_trans (h.cancelled hc) (ticks_le_concat history _)
  atWork rest hw := by cases hw
  givenUp hw := by cases hw
  served _ := by
    cases hanswer : c.answer with
    | some taken => exact ⟨taken, Or.inl rfl⟩
    | none => exact ⟨result, Or.inr ⟨rfl, rfl, rfl⟩⟩
  message sent hm := by
    -- a message that nobody waits for is dropped, so one that is there is the result
    cases hanswer : c.answer with
    | some taken =>
      rw [hanswer] at hm
      cases hm
    | none =>
      rw [hanswer] at hm
      cases hm
      exact hresult.concat .work
  answer taken ha := (h.answer taken ha).concat .work

/-- While a call keeps to its computation, its deadline is over only when time is. -/
theorem KeepsTo.isOver (h : KeepsTo limits m history c) (helapsed : c.elapsed = ticks history)
    (hover : c.isOver limits = true) : limits.timeoutMs ≤ ticks history := by
  rw [Call.isOver, Deadline.isOver, Bool.or_eq_true] at hover
  rcases hover with hcancelled | hreached
  · exact h.cancelled hcancelled
  · rw [← helapsed]
    simpa [deadline, Deadline.after, Deadline.isReached] using hreached

/-- A call keeps to its computation when its worker looks at the deadline. -/
theorem KeepsTo.look (h : KeepsTo limits m history c) (helapsed : c.elapsed = ticks history)
    {next : Watched α} (hworker : c.worker = some (some (.look next))) :
    KeepsTo limits m (history ++ [.work])
      { c with worker := some (if c.isOver limits then none else some next) } where
  cancelled hc := Nat.le_trans (h.cancelled hc) (ticks_le_concat history _)
  atWork rest hw := by
    obtain ⟨hvalue, hlooks⟩ := h.atWork _ hworker
    cases hover : c.isOver limits with
    | true =>
      rw [hover] at hw
      cases hw
    | false =>
      rw [hover] at hw
      cases hw
      refine ⟨hvalue, ?_⟩
      rw [moves_concat, if_pos rfl]
      rw [Watched.looks] at hlooks
      omega
  givenUp hw := by
    cases hover : c.isOver limits with
    | true => exact Nat.le_trans (h.isOver helapsed hover) (ticks_le_concat history _)
    | false =>
      rw [hover] at hw
      cases hw
  served hw := by cases hw
  message result hm := (h.message result hm).concat .work
  answer result ha := (h.answer result ha).concat .work

/-- A call keeps to its computation when its worker makes a move. -/
theorem KeepsTo.work (h : KeepsTo limits m history c) (helapsed : c.elapsed = ticks history) :
    KeepsTo limits m (history ++ [.work]) (c.work limits (watching (deadline limits) m)) := by
  cases hworker : c.worker with
  | none =>
    rw [Call.work, hworker]
    exact h.still fun _ => hworker
  | some state =>
    rw [Call.work, hworker]
    match state with
    | none => exact h.finish (Or.inr ⟨h.givenUp hworker, rfl⟩)
    | some (.done v) =>
      have hvalue : v = m.value := (h.atWork _ hworker).1
      exact h.finish (Or.inl (hvalue ▸ rfl))
    | some (.look next) => exact h.look helapsed hworker

/-- A call keeps to its computation when the caller takes a message. -/
theorem KeepsTo.take (h : KeepsTo limits m history c) {result : Except Error α}
    (hmessage : c.message = some result) :
    KeepsTo limits m history { c with message := none, answer := some result } where
  cancelled := h.cancelled
  atWork := h.atWork
  givenUp := h.givenUp
  served _ := ⟨result, Or.inl rfl⟩
  message sent hm := by cases hm
  answer taken ha := by
    cases ha
    exact h.message _ hmessage

/-- A call keeps to its computation when the caller stops waiting because time is over. -/
theorem KeepsTo.giveUp (h : KeepsTo limits m history c) (hover : limits.timeoutMs ≤ ticks history) :
    KeepsTo limits m history
      { c with cancelled := true, answer := some (.error (deadline limits).timeout) } where
  cancelled _ := hover
  atWork := h.atWork
  givenUp := h.givenUp
  served _ := ⟨_, Or.inl rfl⟩
  message := h.message
  answer taken ha := by
    cases ha
    exact Or.inr ⟨hover, rfl⟩

/-- A call keeps to its computation when the caller looks. -/
theorem KeepsTo.wake (h : KeepsTo limits m history c) (helapsed : c.elapsed = ticks history) :
    KeepsTo limits m (history ++ [.wake]) (c.wake limits) := by
  have hstill : KeepsTo limits m (history ++ [.wake]) c := h.still nofun
  cases hanswer : c.answer with
  | some taken =>
    rw [wake_of_answer hanswer]
    exact hstill
  | none =>
    cases hmessage : c.message with
    | some sent =>
      rw [wake_of_message hanswer hmessage]
      exact hstill.take hmessage
    | none =>
      cases hworker : c.worker with
      | none =>
        -- a worker that has gone has sent its result
        obtain ⟨result, hsettled⟩ := h.served hworker
        rw [IsSettled, hanswer, hmessage] at hsettled
        simp at hsettled
      | some state =>
        rw [wake_of_worker hanswer hmessage hworker]
        split_ifs with hover
        · exact hstill.giveUp (Nat.le_trans (helapsed ▸ hover) (ticks_le_concat history _))
        · exact hstill

/-- A call keeps to its computation in every history. -/
theorem keepsTo_after (m : Watched α) (history : List Event) :
    KeepsTo limits m history (after limits (watching (deadline limits) m) history) := by
  refine after_induction (P := KeepsTo limits m) KeepsTo.begin ?_ history
  intro front e h
  cases e with
  | tick => exact h.tick
  | work => exact h.work (elapsed_after front)
  | wake => exact h.wake (elapsed_after front)

/-- While a call keeps to its computation, a settled result is timely. -/
theorem KeepsTo.isTimely (h : KeepsTo limits m history c) {result : Except Error α}
    (hsettled : IsSettled result c) : IsTimely limits m.value history result := by
  rcases hsettled with hanswer | ⟨-, hmessage, -⟩
  · exact h.answer result hanswer
  · exact h.message result hmessage

/-- While a call keeps to its computation, the caller gets the value of the computation or the notice
that time is over. -/
theorem KeepsTo.outcome (h : KeepsTo limits m history c) :
    c.outcome limits = .ok m.value ∨
      c.outcome limits = .error (.executionTimeout limits.timeoutMs) := by
  cases hworker : c.worker with
  | none =>
    obtain ⟨result, hsettled⟩ := h.served hworker
    rw [hsettled.outcome]
    exact (h.isTimely hsettled).imp id And.right
  | some state =>
    cases hanswer : c.answer with
    | some taken =>
      rw [outcome_of_answer hanswer]
      exact (h.answer taken hanswer).imp id And.right
    | none =>
      cases hmessage : c.message with
      | some sent =>
        rw [outcome_of_message hanswer hmessage]
        exact (h.message sent hmessage).imp id And.right
      | none => exact Or.inr (outcome_of_worker hanswer hmessage hworker)

/-- A worker that gets enough moves before time is over comes to the value of its computation. -/
theorem KeepsTo.isSettled (h : KeepsTo limits m history c)
    (hticks : ticks history < limits.timeoutMs) (hmoves : m.looks < moves history) :
    IsSettled (.ok m.value) c := by
  match hworker : c.worker with
  | some (some rest) =>
    have := (h.atWork rest hworker).2
    omega
  | some none =>
    have := h.givenUp hworker
    omega
  | none =>
    obtain ⟨result, hsettled⟩ := h.served hworker
    rcases h.isTimely hsettled with hvalue | ⟨hover, -⟩
    · exact hvalue ▸ hsettled
    · omega

end Watching

end Call

end TradingRules.Sandbox
