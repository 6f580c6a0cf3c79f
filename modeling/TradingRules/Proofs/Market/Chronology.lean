/-
# Observations in the order of time

The market of observations takes them oldest first, and those of one day in the order in which they
were given. A list with these two properties is determined by the observations of every single day,
so nothing else about the order in which observations are given can change a market.
-/
import Mathlib.Data.List.Sort
import TradingRules.Market.Basic

namespace TradingRules

/-! ## The order of dates -/

namespace Date

/-- A date precedes another one in the calendar. -/
def Before (d e : Date) : Prop :=
  d.year < e.year ∨ d.year = e.year ∧ (d.month < e.month ∨ d.month = e.month ∧ d.day < e.day)

theorem notAfter_iff {d e : Date} : d.notAfter e = true ↔ ¬ e.Before d := by
  rw [notAfter, decide_eq_true_eq, ← Int.not_lt]
  exact not_congr rank_lt_rank

theorem notAfter_trans (d e f : Date) (h : d.notAfter e = true) (h' : e.notAfter f = true) :
    d.notAfter f = true := by
  rw [notAfter, decide_eq_true_eq] at h h' ⊢
  exact Int.le_trans h h'

theorem notAfter_total (d e : Date) : (d.notAfter e || e.notAfter d) = true := by
  rw [notAfter, notAfter, Bool.or_eq_true, decide_eq_true_eq, decide_eq_true_eq]
  exact Int.le_total d.rank e.rank

/-- Of two different dates one precedes the other. -/
theorem eq_of_not_before {d e : Date} (h : ¬ d.Before e) (h' : ¬ e.Before d) : d = e := by
  rw [← notAfter_iff, notAfter, decide_eq_true_eq] at h h'
  exact eq_of_rank_eq (Int.le_antisymm h' h)

theorem not_before_self (d : Date) : ¬ d.Before d := by
  unfold Before
  omega

end Date

namespace Market

/-! ## Chronologies -/

/-- The observations of a day, as they stand. -/
def ofDay (date : Date) (observations : List Observation) : List Observation :=
  observations.filter fun o => decide (o.date = date)

theorem mem_ofDay {date : Date} {observations : List Observation} {o : Observation} :
    o ∈ ofDay date observations ↔ o ∈ observations ∧ o.date = date := by
  rw [ofDay, List.mem_filter, decide_eq_true_eq]

theorem ofDay_cons_of_eq {date : Date} {o : Observation} (h : o.date = date)
    (rest : List Observation) : ofDay date (o :: rest) = o :: ofDay date rest :=
  List.filter_cons_of_pos (decide_eq_true h)

theorem ofDay_cons_of_ne {date : Date} {o : Observation} (h : o.date ≠ date)
    (rest : List Observation) : ofDay date (o :: rest) = ofDay date rest :=
  List.filter_cons_of_neg (by rwa [decide_eq_true_eq])

/-- A history is made of observations: it goes from the oldest to the newest, and for each day it has
the observations of that day in their order. -/
structure IsChronology (observations history : List Observation) : Prop where
  ordered : history.Pairwise fun earlier later => ¬ later.date.Before earlier.date
  ofDay_eq : ∀ date, ofDay date history = ofDay date observations

/-- Lists that have the same observations for each day differ in their order only. -/
theorem perm_of_ofDay_eq {observations others : List Observation}
    (h : ∀ date, ofDay date observations = ofDay date others) : observations.Perm others := by
  rw [List.perm_iff_count]
  intro o
  have hday (all : List Observation) : (ofDay o.date all).count o = all.count o :=
    List.count_filter (decide_eq_true rfl)
  rw [← hday, h, hday]

theorem IsChronology.perm {observations history : List Observation}
    (h : IsChronology observations history) : history.Perm observations :=
  perm_of_ofDay_eq h.ofDay_eq

/-- Without its first observation a list lacks that one on its day, and nothing on the others. -/
theorem ofDay_tail_eq {o : Observation} {rest rest' : List Observation} {date : Date}
    (h : ofDay date (o :: rest) = ofDay date (o :: rest')) : ofDay date rest = ofDay date rest' := by
  by_cases hdate : o.date = date
  · rw [ofDay_cons_of_eq hdate, ofDay_cons_of_eq hdate] at h
    exact List.tail_eq_of_cons_eq h
  · rwa [ofDay_cons_of_ne hdate, ofDay_cons_of_ne hdate] at h

/-- Two lists in the order of time are equal if they have the same observations for each day. -/
theorem eq_of_ofDay_eq {history history' : List Observation}
    (h : history.Pairwise fun earlier later => ¬ later.date.Before earlier.date)
    (h' : history'.Pairwise fun earlier later => ¬ later.date.Before earlier.date)
    (hdays : ∀ date, ofDay date history = ofDay date history') : history = history' := by
  induction history generalizing history' with
  | nil => exact (perm_of_ofDay_eq hdays).nil_eq
  | cons first rest ih =>
    have hperm := perm_of_ofDay_eq hdays
    cases history' with
    | nil => exact hperm.eq_nil
    | cons first' rest' =>
      obtain ⟨hfirst, hrest⟩ := List.pairwise_cons.mp h
      obtain ⟨hfirst', hrest'⟩ := List.pairwise_cons.mp h'
      -- either list begins with its oldest day, and on that day both begin alike
      have hnot : ¬ first'.date.Before first.date := by
        rcases List.mem_cons.mp (hperm.mem_iff.mpr List.mem_cons_self) with heq | hmem
        · rw [heq]
          exact first.date.not_before_self
        · exact hfirst first' hmem
      have hnot' : ¬ first.date.Before first'.date := by
        rcases List.mem_cons.mp (hperm.mem_iff.mp List.mem_cons_self) with heq | hmem
        · rw [heq]
          exact first'.date.not_before_self
        · exact hfirst' first hmem
      have hdate : first'.date = first.date := Date.eq_of_not_before hnot hnot'
      have heq : first = first' := by
        have hday := hdays first.date
        rw [ofDay_cons_of_eq rfl, ofDay_cons_of_eq hdate] at hday
        exact List.head_eq_of_cons_eq hday
      subst heq
      rw [ih hrest hrest' fun date => ofDay_tail_eq (hdays date)]

/-- Observations have one chronology only. -/
theorem IsChronology.unique {observations history history' : List Observation}
    (h : IsChronology observations history) (h' : IsChronology observations history') :
    history = history' :=
  eq_of_ofDay_eq h.ordered h'.ordered fun date => (h.ofDay_eq date).trans (h'.ofDay_eq date).symm

/-- Sorting makes the chronology. -/
theorem isChronology_chronological (observations : List Observation) :
    IsChronology observations (chronological observations) := by
  have htrans (a b c : Observation) : a.date.notAfter b.date = true →
      b.date.notAfter c.date = true → a.date.notAfter c.date = true := Date.notAfter_trans _ _ _
  have htotal (a b : Observation) : (a.date.notAfter b.date || b.date.notAfter a.date) = true :=
    Date.notAfter_total _ _
  constructor
  · exact (List.pairwise_mergeSort htrans htotal observations).imp Date.notAfter_iff.mp
  · intro date
    -- the observations of one day are in order already, so sorting keeps their order
    have hday : (ofDay date observations).Pairwise fun a b => a.date.notAfter b.date = true := by
      refine List.pairwise_of_forall_mem_list fun a ha b hb => ?_
      rw [(mem_ofDay.mp ha).2, (mem_ofDay.mp hb).2, Date.notAfter_iff]
      exact date.not_before_self
    have hsublist : (ofDay date observations).Sublist (chronological observations) :=
      List.sublist_mergeSort htrans htotal hday List.filter_sublist
    have hfiltered : (ofDay date observations).Sublist (ofDay date (chronological observations)) := by
      have hself : ofDay date (ofDay date observations) = ofDay date observations := by
        unfold ofDay
        rw [List.filter_filter]
        simp only [Bool.and_self]
      rw [← hself]
      exact hsublist.filter _
    have hperm : (ofDay date (chronological observations)).Perm (ofDay date observations) :=
      (List.mergeSort_perm observations _).filter _
    exact (hfiltered.eq_of_length hperm.length_eq.symm).symm

/-! ## The latest observation -/

/-- An observation is the latest: none is of a later day, and of those of its day it comes last. -/
def IsLatest (observations : List Observation) (latest : Observation) : Prop :=
  ∃ before after, observations = before ++ latest :: after ∧
    (∀ o ∈ before, ¬ latest.date.Before o.date) ∧ ∀ o ∈ after, o.date.Before latest.date

/-- A chronology ends with the latest observation. -/
theorem IsChronology.isLatest {observations history : List Observation} {latest : Observation}
    (h : IsChronology observations (history ++ [latest])) : IsLatest observations latest := by
  have hnot : ∀ o ∈ observations, ¬ latest.date.Before o.date := by
    intro o ho
    rcases List.mem_append.mp (h.perm.mem_iff.mpr ho) with hmem | hmem
    · exact (List.pairwise_append.mp h.ordered).2.2 o hmem latest (List.mem_singleton_self _)
    · rw [List.mem_singleton.mp hmem]
      exact latest.date.not_before_self
  -- what stands behind the last observation of the last day is of other days
  have hday : ofDay latest.date observations = ofDay latest.date history ++ [latest] := by
    rw [← h.ofDay_eq]
    exact (List.filter_append history [latest]).trans (congrArg _ (ofDay_cons_of_eq rfl []))
  obtain ⟨front, back, rfl, -, hback⟩ := List.filter_eq_append_iff.mp hday
  obtain ⟨skipped, after, rfl, -, -, hafter⟩ := List.filter_eq_cons_iff.mp hback
  refine ⟨front ++ skipped, after, by rw [List.append_assoc], fun o ho => hnot o ?_, fun o ho => ?_⟩
  · rw [← List.append_assoc]
    exact List.mem_append_left _ ho
  · by_contra hbefore
    have hdate : o.date = latest.date := by
      refine Date.eq_of_not_before hbefore (hnot o ?_)
      exact List.mem_append_right _ (List.mem_append_right _ (List.mem_cons_of_mem _ ho))
    exact List.filter_eq_nil_iff.mp hafter o ho (decide_eq_true hdate)

/-! ## Markets of observations -/

/-- The market of a history ends with its last observation. -/
theorem ofHistory_concat (history : List Observation) (latest : Observation) :
    ofHistory (history ++ [latest]) =
      ⟨latest.price, latest.volume, (history ++ [latest]).map (·.price)⟩ := by
  rw [ofHistory, List.getLast?_concat]

/-- Without observations all is zero and empty. -/
theorem ofObservations_nil : ofObservations [] = ⟨0.0, 0.0, []⟩ := by
  rw [ofObservations, (isChronology_chronological []).perm.eq_nil]
  rfl

/-- Observations that are the same for each day, in the same order, make the same market. -/
theorem ofObservations_eq_of_ofDay_eq {observations others : List Observation}
    (h : ∀ date, ofDay date others = ofDay date observations) :
    ofObservations others = ofObservations observations := by
  have hchronology := isChronology_chronological others
  have hsame : IsChronology observations (chronological others) :=
    ⟨hchronology.ordered, fun date => (hchronology.ofDay_eq date).trans (h date)⟩
  rw [ofObservations, hsame.unique (isChronology_chronological observations), ofObservations]

/-- With at most one observation for each day their order does not matter. -/
theorem ofDay_eq_of_perm {observations others : List Observation} (h : others.Perm observations)
    (hdistinct : observations.Pairwise fun o o' => o.date ≠ o'.date) (date : Date) :
    ofDay date others = ofDay date observations := by
  have hperm : (ofDay date others).Perm (ofDay date observations) := h.filter _
  have hpairwise : (ofDay date observations).Pairwise fun o o' => o.date ≠ o'.date :=
    hdistinct.sublist List.filter_sublist
  have hdate : ∀ o ∈ ofDay date observations, o.date = date := fun o ho => (mem_ofDay.mp ho).2
  generalize ofDay date observations = day at hperm hpairwise hdate
  rcases day with _ | ⟨o, _ | ⟨o', rest⟩⟩
  · exact hperm.eq_nil
  · exact List.perm_singleton.mp hperm
  · have hne := (List.pairwise_cons.mp hpairwise).1 o' List.mem_cons_self
    have ho := hdate o List.mem_cons_self
    have ho' := hdate o' (List.mem_cons_of_mem o List.mem_cons_self)
    exact absurd (ho.trans ho'.symm) hne

/-- **The market of observations in any order.** Its prices are those of the observations from the
oldest to the newest, in which those of one day keep their order. Price and volume are those of one
observation, the last one among those of the last day, and its price is also the last of the prices;
without observations all is zero and empty. So observations that are the same for each day, in the
same order, make the same market, and with different days any order does. -/
theorem snapshot_exact (observations : List Observation) :
    (∃ history, history.Perm observations ∧ IsChronology observations history ∧
      (ofObservations observations).prices = history.map (·.price)) ∧
    (observations = [] → ofObservations observations = ⟨0.0, 0.0, []⟩) ∧
    (observations ≠ [] → ∃ latest, IsLatest observations latest ∧
      (ofObservations observations).price = latest.price ∧
      (ofObservations observations).volume = latest.volume ∧
      (ofObservations observations).prices.getLast? = some latest.price) ∧
    (∀ others, (∀ date, ofDay date others = ofDay date observations) →
      ofObservations others = ofObservations observations) ∧
    ∀ others, others.Perm observations → observations.Pairwise (fun o o' => o.date ≠ o'.date) →
      ofObservations others = ofObservations observations := by
  have hchronology := isChronology_chronological observations
  refine ⟨⟨_, hchronology.perm, hchronology, ?_⟩, ?_, ?_,
    fun _ => ofObservations_eq_of_ofDay_eq, ?_⟩
  · rw [ofObservations]
    rcases List.eq_nil_or_concat' (chronological observations) with h | ⟨history, latest, h⟩
    · rw [h]
      rfl
    · rw [h, ofHistory_concat]
  · rintro rfl
    exact ofObservations_nil
  · intro hsome
    rcases List.eq_nil_or_concat' (chronological observations) with h | ⟨history, latest, h⟩
    · exact absurd (h ▸ hchronology).perm.nil_eq.symm hsome
    · rw [ofObservations, h, ofHistory_concat, List.map_append]
      exact ⟨latest, (h ▸ hchronology).isLatest, rfl, rfl, List.getLast?_concat⟩
  · intro others hperm hdistinct
    exact ofObservations_eq_of_ofDay_eq (ofDay_eq_of_perm hperm hdistinct)

/-- Three observations of two days. -/
def twoDays : List Observation :=
  [⟨⟨2024, 1, 3, rfl⟩, 12.0, 300.0⟩, ⟨⟨2023, 12, 31, rfl⟩, 10.0, 100.0⟩,
    ⟨⟨2024, 1, 3, rfl⟩, 11.0, 200.0⟩]

/-- The same observations with the older day in front. -/
def twoDaysInOrder : List Observation :=
  [⟨⟨2023, 12, 31, rfl⟩, 10.0, 100.0⟩, ⟨⟨2024, 1, 3, rfl⟩, 12.0, 300.0⟩,
    ⟨⟨2024, 1, 3, rfl⟩, 11.0, 200.0⟩]

/-- Observations that stand in another order, with a day that has two of them, and without one. -/
theorem snapshot_twoDays :
    ofObservations twoDays = ofObservations twoDaysInOrder ∧
      ofObservations (twoDays.take 2) = ofObservations (twoDaysInOrder.take 2) ∧
      (twoDays ≠ [] ∧ ∃ latest, IsLatest twoDays latest ∧
        (ofObservations twoDays).price = latest.price ∧
        (ofObservations twoDays).volume = latest.volume ∧
        (ofObservations twoDays).prices.getLast? = some latest.price) ∧
      ofObservations [] = ⟨0.0, 0.0, []⟩ := by
  have hsome : twoDays ≠ [] := by decide
  refine ⟨(snapshot_exact twoDaysInOrder).2.2.2.1 twoDays fun date => ?_,
    (snapshot_exact (twoDaysInOrder.take 2)).2.2.2.2 (twoDays.take 2) (by decide) (by decide),
    ⟨hsome, (snapshot_exact twoDays).2.2.1 hsome⟩, (snapshot_exact []).2.1 rfl⟩
  -- the two observations that change places are of different days
  by_cases hold : (⟨2023, 12, 31, rfl⟩ : Date) = date
  · subst hold
    decide
  · unfold twoDays twoDaysInOrder ofDay
    simp only [List.filter_cons, hold, decide_false]
    rfl

end Market

end TradingRules
