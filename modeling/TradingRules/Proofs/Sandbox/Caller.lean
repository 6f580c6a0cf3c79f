/-
# The steps of a caller

A caller that wakes up does several things one after the other: it receives a message or stops
waiting, in the latter case it cancels the deadline, and then it returns. The worker may act between
any two of them. Here they are taken apart: a caller receives, gives up and returns in steps of their
own, and it lets go of the channel only when it returns.

Seen from outside this comes to the same. A caller that has received anything, or has stopped waiting,
counts as one that has its answer, and as one that has cancelled the deadline in the latter case: the
worker cannot tell, since time is over already, and whatever it sends meanwhile is never received. A
caller that goes through its steps gets what a caller gets that wakes up; so it returns as soon as an
end has come to the call or time is over.
-/
import TradingRules.Proofs.Sandbox.CallOutcome

namespace TradingRules.Sandbox

open Call (deadline)

/-- What a caller is about to do. -/
inductive Stage (α : Type) where
  /-- To receive a message. -/
  | waiting
  /-- To cancel the deadline, since the wait has timed out. -/
  | expired
  /-- To return. -/
  | returning (result : Except Error α)

/-- A call together with what its caller is about to do. The answer of the call is what the caller has
returned. -/
structure Exchange (σ α : Type) where
  call : Call σ α
  stage : Stage α

/-- A step of the worker or of the caller. -/
inductive Act where
  /-- The worker makes a move. -/
  | work
  /-- The caller receives a message, learns that there will be none, or stops waiting. -/
  | receive
  /-- The caller cancels the deadline. -/
  | giveUp
  /-- The caller returns. -/
  | deliver
deriving DecidableEq, Repr

/-- What a step is, seen from outside. -/
def Act.event? : Act → Option Event
  | .work => some .work
  | .receive => some .wake
  | .giveUp | .deliver => none

namespace Exchange

variable {σ α : Type}

/-- A call that begins. -/
def begin (w : Worker σ α) : Exchange σ α where
  call := Call.begin w
  stage := .waiting

/-- A millisecond passes. -/
def tick (x : Exchange σ α) : Exchange σ α :=
  { x with call := { x.call with elapsed := x.call.elapsed + 1 } }

/-- The caller looks for a message. -/
def receive (limits : Limits) (x : Exchange σ α) : Exchange σ α :=
  match x.call.message with
  | some result => { call := { x.call with message := none }, stage := .returning result }
  | none =>
    if x.call.worker.isNone then { x with stage := .returning (.error lostWorker) }
    else if limits.timeoutMs ≤ x.call.elapsed then { x with stage := .expired }
    else x

/-- A call whose caller has an answer and receives nothing any more. -/
def answered (result : Except Error α) (c : Call σ α) : Call σ α :=
  { c with message := none, answer := some result }

/-- A call whose deadline is cancelled. -/
def withoutTime (c : Call σ α) : Call σ α :=
  { c with cancelled := true }

/-- What a step does. -/
def act (limits : Limits) (w : Worker σ α) (x : Exchange σ α) (a : Act) : Exchange σ α :=
  match a, x.stage with
  | .work, _ => { x with call := x.call.work limits w }
  | .receive, .waiting => x.receive limits
  | .giveUp, .expired =>
    { call := withoutTime x.call, stage := .returning (.error (deadline limits).timeout) }
  | .deliver, .returning result => { x with call := answered result x.call }
  | _, _ => x

/-- What a caller does that goes through its steps: it looks for a message, gives up if it has
stopped waiting, and returns if it has something to return. -/
def finish (limits : Limits) (w : Worker σ α) (x : Exchange σ α) : Exchange σ α :=
  [Act.receive, .giveUp, .deliver].foldl (act limits w) x

/-! ## What is seen from outside -/

/-- The call as it is seen from outside. -/
def merged (limits : Limits) (x : Exchange σ α) : Call σ α :=
  match x.stage with
  | .waiting => x.call
  | .expired => answered (.error (deadline limits).timeout) (withoutTime x.call)
  | .returning result => answered result x.call

/-- A caller returns only what it is about to return, and stops waiting only when time is over. What
it has left in the channel is gone when it has returned. -/
structure IsSound (limits : Limits) (x : Exchange σ α) : Prop where
  returned : ∀ result, x.call.answer = some result → x.stage = .returning result
  emptied : ∀ result, x.call.answer = some result → x.call.message = none
  expired : x.stage = .expired → limits.timeoutMs ≤ x.call.elapsed

variable {limits : Limits} {w : Worker σ α}

/-- A caller that waits or has just stopped waiting has not returned. -/
theorem IsSound.answer_eq_none {x : Exchange σ α} (h : x.IsSound limits)
    (hstage : ∀ result, x.stage ≠ .returning result) : x.call.answer = none := by
  rw [Option.eq_none_iff_forall_ne_some]
  exact fun result hanswer => hstage result (h.returned result hanswer)

/-- When the wait has timed out, the deadline is over. -/
theorem IsSound.isOver_of_expired {x : Exchange σ α} (h : x.IsSound limits)
    (hstage : x.stage = .expired) : x.call.isOver limits = true := by
  have hreached : (deadline limits).isReached x.call.elapsed = true := by
    have hover := h.expired hstage
    simpa [deadline, Deadline.after, Deadline.isReached] using hover
  rw [Call.isOver, Deadline.isOver, hreached, Bool.or_true]

/-- An exchange whose caller has not returned is sound if the caller stops waiting only when time is
over. -/
theorem IsSound.of_answer_eq_none {x : Exchange σ α} (hanswer : x.call.answer = none)
    (hexpired : x.stage = .expired → limits.timeoutMs ≤ x.call.elapsed) : x.IsSound limits where
  returned result h := by
    rw [hanswer] at h
    cases h
  emptied result h := by
    rw [hanswer] at h
    cases h
  expired := hexpired

theorem IsSound.begin : (begin w).IsSound limits :=
  .of_answer_eq_none rfl nofun

theorem IsSound.tick {x : Exchange σ α} (h : x.IsSound limits) : x.tick.IsSound limits where
  returned := h.returned
  emptied := h.emptied
  expired hstage := Nat.le_succ_of_le (h.expired hstage)

/-- A caller that looks for a message and finds none waits on, unless time is over. -/
theorem IsSound.receive {x : Exchange σ α} (h : x.IsSound limits) (hstage : x.stage = .waiting) :
    (x.receive limits).IsSound limits := by
  have hanswer : x.call.answer = none := h.answer_eq_none fun result => by rw [hstage]; exact nofun
  unfold Exchange.receive
  split
  · exact .of_answer_eq_none hanswer nofun
  · split_ifs with hgone hover
    · exact .of_answer_eq_none hanswer nofun
    · exact .of_answer_eq_none hanswer fun _ => hover
    · exact h

theorem IsSound.work {x : Exchange σ α} (h : x.IsSound limits) :
    Exchange.IsSound limits { x with call := x.call.work limits w } := by
  have hturn : Call.Turns limits w x.call .work (x.call.work limits w) := Call.turns_step x.call .work
  generalize x.call.work limits w = c at hturn
  cases hturn with
  | rest hworker => exact ⟨h.returned, h.emptied, h.expired⟩
  | goOn next hworker => exact ⟨h.returned, h.emptied, h.expired⟩
  | cancel hmove => exact ⟨h.returned, h.emptied, h.expired⟩
  | crash hmove => exact ⟨h.returned, h.emptied, h.expired⟩
  | finish hmove =>
    refine ⟨h.returned, fun result hanswer => ?_, h.expired⟩
    -- the caller has let go of the channel
    show (if x.call.answer.isSome then none else _) = none
    rw [hanswer]
    rfl

/-- No step of the worker or the caller makes an exchange unsound. -/
theorem IsSound.act {x : Exchange σ α} (h : x.IsSound limits) (a : Act) :
    (x.act limits w a).IsSound limits := by
  obtain ⟨call, stage⟩ := x
  cases a with
  | work => exact h.work
  | receive =>
    cases stage with
    | waiting => exact h.receive rfl
    | expired => exact h
    | returning result => exact h
  | giveUp =>
    cases stage with
    | waiting => exact h
    | expired =>
      have hanswer : call.answer = none := h.answer_eq_none nofun
      exact .of_answer_eq_none hanswer nofun
    | returning result => exact h
  | deliver =>
    cases stage with
    | waiting => exact h
    | expired => exact h
    | returning result =>
      refine ⟨fun taken htaken => ?_, fun _ _ => rfl, nofun⟩
      cases htaken
      rfl

theorem merged_tick (x : Exchange σ α) :
    x.tick.merged limits = (x.merged limits).step limits w .tick := by
  obtain ⟨call, stage⟩ := x
  cases stage <;> rfl

/-- A worker makes the same move when its caller has an answer already. -/
theorem work_answered (result : Except Error α) (c : Call σ α) :
    (answered result c).work limits w = answered result (c.work limits w) := by
  obtain ⟨elapsed, cancelled, worker, message, answer⟩ := c
  cases worker with
  | none => rfl
  | some state =>
    simp only [Call.work, answered]
    cases w.move state <;> rfl

/-- A worker makes the same move when a deadline that is over is also cancelled. -/
theorem work_withoutTime {c : Call σ α} (h : c.isOver limits = true) :
    (withoutTime c).work limits w = withoutTime (c.work limits w) := by
  have hover : (withoutTime c).isOver limits = c.isOver limits := h.symm
  obtain ⟨elapsed, cancelled, worker, message, answer⟩ := c
  cases worker with
  | none => rfl
  | some state =>
    simp only [withoutTime] at hover
    simp only [Call.work, withoutTime, hover]
    cases w.move state <;> rfl

/-- A move of the worker is the same, seen from outside. -/
theorem IsSound.merged_work {x : Exchange σ α} (h : x.IsSound limits) :
    (x.act limits w .work).merged limits = (x.merged limits).work limits w := by
  have hexpired := h.isOver_of_expired
  obtain ⟨call, stage⟩ := x
  cases stage with
  | waiting => rfl
  | expired =>
    show answered _ (withoutTime (call.work limits w)) = (answered _ (withoutTime call)).work limits w
    rw [work_answered, work_withoutTime (hexpired rfl)]
  | returning result => exact (work_answered result call).symm

/-- Receiving, learning that there is nothing to receive and ceasing to wait are what a caller does
that wakes up, seen from outside. -/
theorem IsSound.merged_receive {x : Exchange σ α} (h : x.IsSound limits) :
    (x.act limits w .receive).merged limits = (x.merged limits).wake limits := by
  obtain ⟨call, stage⟩ := x
  cases stage with
  | waiting =>
    have hanswer : call.answer = none := h.answer_eq_none nofun
    obtain ⟨elapsed, cancelled, worker, message, answer⟩ := call
    cases hanswer
    cases message with
    | some result => rfl
    | none =>
      cases worker with
      | none => rfl
      | some state =>
        show merged limits (if limits.timeoutMs ≤ elapsed then _ else _) =
          if limits.timeoutMs ≤ elapsed then _ else _
        split_ifs <;> rfl
  | expired => exact (Call.wake_of_answer rfl).symm
  | returning result => exact (Call.wake_of_answer rfl).symm

/-- A step is what it is seen from outside, and is not seen there if it is none. -/
theorem IsSound.merged_act {x : Exchange σ α} (h : x.IsSound limits) (a : Act) :
    (x.act limits w a).merged limits =
      (a.event?.toList).foldl (Call.step limits w) (x.merged limits) := by
  cases a with
  | work => exact h.merged_work
  | receive => exact h.merged_receive
  | giveUp =>
    obtain ⟨call, stage⟩ := x
    cases stage <;> rfl
  | deliver =>
    obtain ⟨call, stage⟩ := x
    cases stage <;> rfl

/-! ## Exchanges and histories -/

/-- An exchange is sound, and seen from outside it is the call of a history. -/
structure Follows (limits : Limits) (w : Worker σ α) (history : List Event) (x : Exchange σ α) :
    Prop where
  isSound : x.IsSound limits
  merged : x.merged limits = Call.after limits w history

variable {history : List Event} {x : Exchange σ α}

theorem Follows.begin : Follows limits w [] (begin w) where
  isSound := .begin
  merged := rfl

theorem Follows.tick (h : Follows limits w history x) :
    Follows limits w (history ++ [.tick]) x.tick where
  isSound := h.isSound.tick
  merged := by rw [merged_tick, h.merged, Call.after_concat]

theorem Follows.act (h : Follows limits w history x) (a : Act) :
    Follows limits w (history ++ a.event?.toList) (x.act limits w a) where
  isSound := h.isSound.act a
  merged := by rw [h.isSound.merged_act, h.merged, Call.after, Call.after, List.foldl_append]

/-- After the last two steps the caller has the answer that is seen from outside. -/
theorem answer_giveUp_deliver (x : Exchange σ α) :
    ((x.act limits w .giveUp).act limits w .deliver).call.answer = (x.merged limits).answer := by
  obtain ⟨call, stage⟩ := x
  cases stage <;> rfl

/-- A caller that goes through its steps gets what a caller gets that wakes up. -/
theorem Follows.answer_finish (h : Follows limits w history x) :
    (x.finish limits w).call.answer = ((Call.after limits w history).wake limits).answer := by
  show (((x.act limits w .receive).act limits w .giveUp).act limits w .deliver).call.answer = _
  rw [answer_giveUp_deliver, h.isSound.merged_receive, h.merged]

/-- A caller that goes through its steps returns, if an end has come to the call or time is over. -/
theorem Follows.returns (h : Follows limits w history x)
    (hend : Call.Ended limits w history ∨ limits.timeoutMs ≤ ticks history) :
    (x.finish limits w).call.answer = some (runTimed limits history w) := by
  rw [h.answer_finish, runTimed]
  refine Call.answer_wake fun hopen => ?_
  rcases hend with hended | hover
  · exact absurd hopen hended.not_isOpen
  · rwa [Call.elapsed_after]

/-- A caller that has returned has the answer that is seen from outside. -/
theorem Follows.answer_after (h : Follows limits w history x) {result : Except Error α}
    (hreturned : x.call.answer = some result) :
    (Call.after limits w history).answer = some result ∧
      (Call.after limits w history).cancelled = x.call.cancelled := by
  rw [← h.merged, Exchange.merged, h.isSound.returned result hreturned]
  exact ⟨rfl, rfl⟩

/-- A cancelled deadline is seen from outside. -/
theorem cancelled_merged (h : x.call.cancelled = true) : (x.merged limits).cancelled = true := by
  unfold merged
  split
  · exact h
  · rfl
  · exact h

/-- When the wait has timed out, the deadline is over for the worker, be it cancelled yet or not. -/
theorem Follows.isOver_of_timesOut (h : Follows limits w history x)
    (hlate : Call.TimesOut limits w history) : x.call.isOver limits = true := by
  have hgivenUp : Call.IsGivenUp limits (x.merged limits) := h.merged ▸ hlate.isGivenUp
  have hsound := h.isSound
  obtain ⟨call, stage⟩ := x
  cases stage with
  | waiting =>
    -- a caller that still waits has no answer, inside or outside
    have hanswer : call.answer = none := hsound.answer_eq_none nofun
    exact absurd (hanswer.symm.trans hgivenUp.answer) nofun
  | expired => exact hsound.isOver_of_expired rfl
  | returning result =>
    rw [Call.isOver, Deadline.isOver, Bool.or_eq_true]
    exact Or.inl hgivenUp.cancelled

/-- What is promised of an exchange that has come so far by a history. -/
structure IsSafe (limits : Limits) (w : Worker σ α) (history : List Event) (x : Exchange σ α) :
    Prop where
  /-- The caller returns the result that its worker sent while it waited, the notice that the worker
  ended without one, or the notice that the configured time is over. -/
  returned : ∀ result, x.call.answer = some result →
    Call.Sends limits w history result ∨
      Call.Breaks limits w history ∧ result = .error lostWorker ∨
      Call.TimesOut limits w history ∧ result = .error (.executionTimeout limits.timeoutMs)
  /-- A caller whose wait times out returns the last of these, whatever the worker sends then, and
  only when the deadline is cancelled. -/
  timedOut : Call.TimesOut limits w history → ∀ result, x.call.answer = some result →
    result = .error (.executionTimeout limits.timeoutMs) ∧ x.call.cancelled = true
  /-- From the moment when the wait times out every check of the worker fails in the same way. -/
  checked : Call.TimesOut limits w history →
    (deadline limits).check (x.call.isOver limits) = .error (.executionTimeout limits.timeoutMs)
  /-- When the caller has returned, nothing that the worker sends is kept. -/
  discarded : ∀ result, x.call.answer = some result → x.call.message = none
  /-- The deadline is cancelled only when the wait times out, or by the worker itself. -/
  cancelled : x.call.cancelled = true →
    Call.TimesOut limits w history ∨ Call.Cancels limits w history

/-- Every exchange is safe. -/
theorem Follows.isSafe (h : Follows limits w history x) : x.IsSafe limits w history where
  returned result hreturned := Call.answer_cases (h.answer_after hreturned).1
  timedOut hlate result hreturned := by
    obtain ⟨hanswer, hcancelled⟩ := h.answer_after hreturned
    rw [hlate.isGivenUp.answer] at hanswer
    rw [hlate.isGivenUp.cancelled] at hcancelled
    exact ⟨(Option.some.inj hanswer).symm, hcancelled.symm⟩
  checked hlate := by
    rw [h.isOver_of_timesOut hlate]
    rfl
  discarded := h.isSound.emptied
  cancelled hcancelled := Call.timesOut_or_cancels (h.merged ▸ cancelled_merged hcancelled)

end Exchange

end TradingRules.Sandbox
