/-
# Any number of calls in flight

Trees are handed in for execution by any number of callers, each with limits and a worker of its own.
One clock runs for all of them; otherwise callers and workers act one at a time, in any order. A tree
is validated when its call is made, and only then is there any work.

An incident does to every request what it does to that request alone. So every call that is in flight
is the call of a history of its own, and what is known of such a call holds among any number of
others.
-/
import Mathlib.Data.List.TakeWhile
import TradingRules.Proofs.Sandbox.Caller

namespace TradingRules.Sandbox

/-- A tree that is handed in, the limits for it, and the work to be done on it. -/
structure Request (σ α : Type) where
  limits : Limits
  root : Json
  worker : Worker σ α

/-- How far a request has come. -/
inductive Standing (σ α : Type) where
  /-- Its call has not been made yet. -/
  | pending
  /-- The tree was refused, and that is what the caller got. -/
  | refused (e : Error)
  /-- The work has begun. -/
  | begun (x : Exchange σ α)

/-- What can happen among several requests. -/
inductive Incident (ι : Type) where
  /-- A millisecond passes. -/
  | tick
  /-- A call is made. -/
  | make (i : ι)
  /-- The worker or the caller of a call takes a step. -/
  | act (i : ι) (a : Act)
deriving DecidableEq, Repr

namespace Standing

variable {σ α : Type} (r : Request σ α)

/-- A millisecond passes. -/
def tick : Standing σ α → Standing σ α
  | .pending => .pending
  | .refused e => .refused e
  | .begun x => .begun x.tick

/-- The call is made, once. -/
def make : Standing σ α → Standing σ α
  | .pending =>
    match validate r.limits r.root with
    | .ok _ => .begun (.begin r.worker)
    | .error e => .refused e
  | .refused e => .refused e
  | .begun x => .begun x

/-- The worker or the caller takes a step. -/
def act (a : Act) : Standing σ α → Standing σ α
  | .pending => .pending
  | .refused e => .refused e
  | .begun x => .begun (x.act r.limits r.worker a)

end Standing

namespace InFlight

variable {ι : Type} [DecidableEq ι]

section Requests

variable {σ α : ι → Type} (requests : ∀ i, Request (σ i) (α i))

/-- What an incident does. -/
def step (s : ∀ i, Standing (σ i) (α i)) : Incident ι → ∀ i, Standing (σ i) (α i)
  | .tick => fun i => (s i).tick
  | .make i => Function.update s i ((s i).make (requests i))
  | .act i a => Function.update s i ((s i).act (requests i) a)

/-- How far every request has come after some incidents. -/
def after (incidents : List (Incident ι)) : ∀ i, Standing (σ i) (α i) :=
  incidents.foldl (step requests) fun _ => .pending

end Requests

/-! ## One request among many -/

section OneRequest

variable {σ α : Type} (r : Request σ α) (i : ι)

/-- What an incident does to one request. -/
def meet (s : Standing σ α) : Incident ι → Standing σ α
  | .tick => s.tick
  | .make j => if i = j then s.make r else s
  | .act j a => if i = j then s.act r a else s

/-- Whether an incident has to do with a request. -/
def concerns : Incident ι → Bool
  | .tick => true
  | .make j => decide (i = j)
  | .act j _ => decide (i = j)

/-- The events that an incident is for a call that has been made. -/
def eventsAt : Incident ι → List Event
  | .tick => [.tick]
  | .make _ => []
  | .act j a => if i = j then a.event?.toList else []

/-- The history of a call: the events that concern it since it was made. -/
def historyOf (incidents : List (Incident ι)) : List Event :=
  (incidents.dropWhile (· ≠ .make i)).flatMap (eventsAt i)

variable {r i}

/-- An incident that has nothing to do with a request leaves it as it is. -/
theorem meet_of_not_concerns {s : Standing σ α} {x : Incident ι} (h : concerns i x = false) :
    meet r i s x = s := by
  cases x with
  | tick => cases h
  | make j => exact if_neg (of_decide_eq_false h)
  | act j a => exact if_neg (of_decide_eq_false h)

/-- A request whose call is not made yet waits for that. -/
theorem meet_pending {x : Incident ι} (h : x ≠ .make i) : meet r i .pending x = .pending := by
  cases x with
  | tick => rfl
  | make j =>
    rw [meet, if_neg]
    rintro rfl
    exact h rfl
  | act j a => exact ite_self _

/-- A request that is refused stays so. -/
theorem meet_refused (e : Error) (x : Incident ι) : meet r i (.refused e) x = .refused e := by
  cases x with
  | tick => rfl
  | make j => exact ite_self _
  | act j a => exact ite_self _

/-- Work that has begun goes on with the events that an incident is for it. -/
theorem meet_begun {history : List Event} {x : Exchange σ α}
    (h : x.Follows r.limits r.worker history) (incident : Incident ι) :
    ∃ x', meet r i (.begun x) incident = .begun x' ∧
      x'.Follows r.limits r.worker (history ++ eventsAt i incident) := by
  cases incident with
  | tick => exact ⟨x.tick, rfl, h.tick⟩
  | make j => exact ⟨x, ite_self _, by rwa [eventsAt, List.append_nil]⟩
  | act j a =>
    rw [meet, eventsAt]
    split_ifs with hi
    · exact ⟨x.act r.limits r.worker a, rfl, h.act a⟩
    · exact ⟨x, rfl, by rwa [List.append_nil]⟩

variable {incidents : List (Incident ι)}

/-- The history of a call goes on with the events that an incident is for it. -/
theorem historyOf_concat (h : .make i ∈ incidents) (x : Incident ι) :
    historyOf i (incidents ++ [x]) = historyOf i incidents ++ eventsAt i x := by
  have hrest : (incidents ++ [x]).dropWhile (· ≠ .make i) =
      incidents.dropWhile (· ≠ .make i) ++ [x] := by
    rw [List.dropWhile_append, if_neg]
    rw [List.isEmpty_iff, List.dropWhile_eq_nil_iff]
    intro hall
    exact of_decide_eq_true (hall _ h) rfl
  rw [historyOf, hrest, List.flatMap_append, List.flatMap_singleton, historyOf]

/-- A call that has just been made has no history. -/
theorem historyOf_make (h : .make i ∉ incidents) :
    historyOf i (incidents ++ [.make i]) = [] := by
  have hrest : (incidents ++ [Incident.make i]).dropWhile (· ≠ .make i) = [Incident.make i] := by
    rw [List.dropWhile_append_of_pos]
    · simp
    · intro x hx
      have hne : x ≠ .make i := fun heq => h (heq ▸ hx)
      exact decide_eq_true hne
  rw [historyOf, hrest]
  rfl

end OneRequest

/-! ## All requests -/

variable {σ α : ι → Type} {requests : ∀ i, Request (σ i) (α i)} {incidents : List (Incident ι)} {i : ι}

/-- An incident does to every request what it does to that request alone. -/
theorem step_apply (s : ∀ i, Standing (σ i) (α i)) (x : Incident ι) (i : ι) :
    step requests s x i = meet (requests i) i (s i) x := by
  have hupdate (j : ι) (new : Standing (σ j) (α j)) (hi : i ≠ j) : Function.update s j new i = s i :=
    Function.update_of_ne hi _ _
  cases x with
  | tick => rfl
  | make j =>
    rw [meet, step]
    split_ifs with hi
    · cases hi
      exact Function.update_self _ _ _
    · exact hupdate j _ hi
  | act j a =>
    rw [meet, step]
    split_ifs with hi
    · cases hi
      exact Function.update_self _ _ _
    · exact hupdate j _ hi

theorem after_concat (incidents : List (Incident ι)) (x : Incident ι) (i : ι) :
    after requests (incidents ++ [x]) i = meet (requests i) i (after requests incidents i) x := by
  rw [← step_apply, after, List.foldl_append]
  rfl

/-- A request waits as long as its call is not made. -/
theorem after_of_notMem (h : .make i ∉ incidents) : after requests incidents i = .pending := by
  induction incidents using List.reverseRecOn with
  | nil => rfl
  | append_singleton front x ih =>
    rw [List.mem_append, not_or, List.mem_singleton] at h
    rw [after_concat, ih h.1]
    exact meet_pending (Ne.symm h.2)

/-- When a call is made, its tree is validated. -/
theorem after_make (h : .make i ∉ incidents) :
    after requests (incidents ++ [.make i]) i = (Standing.pending).make (requests i) := by
  rw [after_concat, after_of_notMem h, meet, if_pos rfl]

/-- A tree that is refused when its call is made is refused for good. -/
theorem after_of_error {e : Error} (h : .make i ∈ incidents)
    (hrefused : validate (requests i).limits (requests i).root = .error e) :
    after requests incidents i = .refused e := by
  induction incidents using List.reverseRecOn with
  | nil => cases h
  | append_singleton front x ih =>
    by_cases hfront : .make i ∈ front
    · rw [after_concat, ih hfront, meet_refused]
    · rw [List.mem_append, or_iff_right hfront, List.mem_singleton] at h
      rw [← h, after_make hfront, Standing.make, hrefused]

/-- The work on a tree that is accepted is the call of a history of its own. -/
theorem after_of_ok {u : Unit} (h : .make i ∈ incidents)
    (hvalid : validate (requests i).limits (requests i).root = .ok u) :
    ∃ x, after requests incidents i = .begun x ∧
      x.Follows (requests i).limits (requests i).worker (historyOf i incidents) := by
  induction incidents using List.reverseRecOn with
  | nil => cases h
  | append_singleton front x ih =>
    by_cases hfront : .make i ∈ front
    · obtain ⟨before, hbefore, hfollows⟩ := ih hfront
      rw [after_concat, hbefore, historyOf_concat hfront]
      exact meet_begun hfollows x
    · rw [List.mem_append, or_iff_right hfront, List.mem_singleton] at h
      rw [← h, after_make hfront, Standing.make, hvalid, historyOf_make hfront]
      exact ⟨_, rfl, .begin⟩

/-- What happens to other requests does not matter to a request. -/
theorem after_filter_concerns (incidents : List (Incident ι)) (i : ι) :
    after requests (incidents.filter (concerns i)) i = after requests incidents i := by
  induction incidents using List.reverseRecOn with
  | nil => rfl
  | append_singleton front x ih =>
    rw [List.filter_append, after_concat]
    cases hconcerns : concerns i x with
    | true => rw [List.filter_cons_of_pos hconcerns, List.filter_nil, after_concat, ih]
    | false =>
      have hdropped : ¬ concerns i x = true := by rw [hconcerns]; exact Bool.false_ne_true
      rw [List.filter_cons_of_neg hdropped, List.filter_nil, List.append_nil, ih,
        meet_of_not_concerns hconcerns]

end InFlight

/-! ## Safety -/

section Safety

variable {σ α : Type}

/-- What comes of a request in a history. -/
def Request.execute (r : Request σ α) (history : List Event) : Except Error α :=
  Sandbox.execute r.limits history r.root r.worker

/-- What is promised when the work on a request has come so far by a history. -/
structure Request.IsServed (r : Request σ α) (history : List Event) (x : Exchange σ α) : Prop where
  /-- Seen from outside, worker and caller have done what the history says. -/
  follows : x.Follows r.limits r.worker history
  /-- What they have done is safe. -/
  isSafe : x.IsSafe r.limits r.worker history
  /-- What the caller has returned is what execution gives in this history. -/
  returned : ∀ result, x.call.answer = some result → r.execute history = result
  /-- A caller that goes through its steps returns it, if an end has come to the call or time is
  over. -/
  returns : Call.Ended r.limits r.worker history ∨ r.limits.timeoutMs ≤ ticks history →
    (x.finish r.limits r.worker).call.answer = some (r.execute history)
  /-- What execution gives is what the history tells. -/
  comesTo : Call.ComesTo r.limits r.worker history (r.execute history)

/-- Of a tree that is refused the caller gets the refusal. -/
theorem Request.execute_of_error {r : Request σ α} {e : Error}
    (h : validate r.limits r.root = .error e) (history : List Event) : r.execute history = .error e := by
  rw [Request.execute, Sandbox.execute, h]
  rfl

/-- On a tree that is accepted the work is done. -/
theorem Request.execute_of_ok {r : Request σ α} {u : Unit} (h : validate r.limits r.root = .ok u)
    (history : List Event) : r.execute history = runTimed r.limits history r.worker := by
  rw [Request.execute, Sandbox.execute, h]
  rfl

/-- Work on a tree that is accepted is served. -/
theorem Request.isServed_of_follows {r : Request σ α} {u : Unit}
    (h : validate r.limits r.root = .ok u) {history : List Event} {x : Exchange σ α}
    (hfollows : x.Follows r.limits r.worker history) : r.IsServed history x where
  follows := hfollows
  isSafe := hfollows.isSafe
  returned result hreturned := by
    rw [execute_of_ok h]
    exact Call.outcome_of_answer (hfollows.answer_after hreturned).1
  returns hend := by
    rw [execute_of_ok h]
    exact hfollows.returns hend
  comesTo := by
    rw [execute_of_ok h]
    exact Call.comesTo_runTimed r.limits history r.worker

end Safety

/-- **Timed execution is safe** for any number of requests, any workers and any order of what
happens. The call of a request is not made yet; or its tree is refused, no work is done on it, and the
refusal is what execution gives; or its tree is accepted and the work on it is served by a history of
its own. In any case nothing depends on what happens to other requests. -/
theorem InFlight.execution_isSafe {ι : Type} [DecidableEq ι] {σ α : ι → Type}
    (requests : ∀ i, Request (σ i) (α i)) (incidents : List (Incident ι)) (i : ι) :
    (.make i ∉ incidents ∧ after requests incidents i = .pending ∨
      (∃ e, validate (requests i).limits (requests i).root = .error e ∧
        after requests incidents i = .refused e ∧
        ∀ history, (requests i).execute history = .error e) ∨
      (validate (requests i).limits (requests i).root = .ok () ∧
        ∃ x, after requests incidents i = .begun x ∧
          (requests i).IsServed (historyOf i incidents) x)) ∧
    after requests (incidents.filter (concerns i)) i = after requests incidents i := by
  refine ⟨?_, after_filter_concerns incidents i⟩
  by_cases hmade : .make i ∈ incidents
  · right
    cases hvalid : validate (requests i).limits (requests i).root with
    | error e =>
      left
      exact ⟨e, rfl, after_of_error hmade hvalid, Request.execute_of_error hvalid⟩
    | ok u =>
      right
      obtain ⟨x, hx, hfollows⟩ := after_of_ok hmade hvalid
      exact ⟨rfl, x, hx, Request.isServed_of_follows hvalid hfollows⟩
  · left
    exact ⟨hmade, after_of_notMem hmade⟩

end TradingRules.Sandbox
