/-
# The limits that a text of settings gives

A limit is what the text says at the last appearance of its key in the section `sandbox`, if that is
a positive number of at most 64 bits; a value that is no such number is reported, the depth before the
time. A key that does not appear leaves the default, and so does a key whose last appearance has no
value: such a line is the only one in the section that has no effect but to take back what was set
before it.
-/
import TradingRules.Proofs.Settings.Appearance
import TradingRules.Proofs.Text.Natural
import TradingRules.Settings.Limits

namespace TradingRules.Settings

open Text (NaturalError Writes readNatural readNatural_eq_ok_iff exists_readNatural_eq_error_iff)
open Sandbox (Limits)

/-! ## Numbers -/

/-- A number is read off the value of a key, and none if there is no value. -/
theorem natural?_cases (s : Settings) (name key : String) :
    (s.get? name key = none ∨ s.get? name key = some none) ∧ s.natural? name key = .ok none ∨
      ∃ value, s.get? name key = some (some value) ∧
        s.natural? name key = (readNatural value.toList).map some := by
  unfold natural?
  cases hget : s.get? name key with
  | none => exact Or.inl ⟨Or.inl rfl, rfl⟩
  | some value? =>
    cases value? with
    | none => exact Or.inl ⟨Or.inr rfl, rfl⟩
    | some value => exact Or.inr ⟨value, rfl, rfl⟩

section

variable {text : String} {s : Settings} (h : parse text = .ok s) (name key : String)

include h

/-- No number is given exactly if a key does not appear or has no value at its last appearance. -/
theorem natural?_eq_none_iff :
    s.natural? name key = .ok none ↔
      Absent (linesOf text) (lowered name) (lowered key) ∨
        Last (linesOf text) (lowered name) (lowered key) none := by
  rw [← get?_eq_none_iff h, ← get?_eq_some_iff h]
  rcases natural?_cases s name key with ⟨hget, hread⟩ | ⟨value, hget, hread⟩
  · exact iff_of_true hread hget
  · rw [hread, hget]
    cases readNatural value.toList <;> simp [Except.map]

/-- A number is given exactly if it is written at the last appearance of a key, and fits. -/
theorem natural?_eq_some_iff (n : Nat) :
    s.natural? name key = .ok (some n) ↔
      ∃ value, Last (linesOf text) (lowered name) (lowered key) (some value) ∧
        Writes n value.toList ∧ n < 2 ^ 64 := by
  simp only [← get?_eq_some_iff h, ← readNatural_eq_ok_iff]
  rcases natural?_cases s name key with ⟨hget, hread⟩ | ⟨value, hget, hread⟩
  · rcases hget with hget | hget <;> simp [hread, hget]
  · rw [hread, hget]
    cases hvalue : readNatural value.toList <;> simp [hvalue, Except.map]

/-- A value that writes no number that fits is reported. -/
theorem exists_natural?_eq_error_iff :
    (∃ e, s.natural? name key = .error e) ↔
      ∃ value, Last (linesOf text) (lowered name) (lowered key) (some value) ∧
        ∀ n, Writes n value.toList → 2 ^ 64 ≤ n := by
  simp only [← get?_eq_some_iff h, ← exists_readNatural_eq_error_iff]
  rcases natural?_cases s name key with ⟨hget, hread⟩ | ⟨value, hget, hread⟩
  · rcases hget with hget | hget <;> simp [hread, hget]
  · rw [hread, hget]
    cases hvalue : readNatural value.toList <;> simp [hvalue, Except.map]

end

/-! ## Reading a limit -/

/-- A limit is the number that the source gives, or the default if it gives none. -/
theorem readLimit_eq_ok_iff {source : Source} {key : String} {default n : Nat} :
    readLimit source key default = .ok n ↔
      source limitsSection key = .ok none ∧ n = default ∨
        source limitsSection key = .ok (some n) ∧ 0 < n := by
  unfold readLimit
  split
  · rename_i e hsource
    simp [hsource]
  · rename_i hsource
    simp [hsource]
    omega
  · rename_i m hm hsource
    have hpos : 0 < m := Nat.pos_of_ne_zero fun hzero => hm hzero
    simp only [hsource, Except.ok.injEq, Option.some.injEq, reduceCtorEq, false_and, false_or]
    constructor
    · rintro rfl
      exact ⟨rfl, hpos⟩
    · exact And.left
  · rename_i hsource
    simp [hsource, eq_comm]

/-- A limit that cannot be used is reported under its key: the source gives no number for a value, or
gives zero. -/
theorem exists_readLimit_eq_error_iff {source : Source} {key name : String} {default : Nat} :
    (∃ e, readLimit source key default = .error e ∧ e.key = name) ↔
      ((∃ e, source limitsSection key = .error e) ∨ source limitsSection key = .ok (some 0)) ∧
        name = key := by
  unfold readLimit
  split
  · rename_i e hsource
    simp [hsource, eq_comm]
  · rename_i hsource
    simp [hsource, eq_comm]
  · rename_i m hm hsource
    simp [hsource]
    intro hzero
    exact absurd hzero hm
  · rename_i hsource
    simp [hsource]

/-! ## The limits of a text -/

theorem lowered_limitsSection : lowered limitsSection = limitsSection := by decide +kernel

theorem lowered_max_depth : lowered "max_depth" = "max_depth" := by decide +kernel

theorem lowered_timeout_ms : lowered "timeout_ms" = "timeout_ms" := by decide +kernel

/-- The limit that some lines give: a default if its key does not appear or has no value at its last
appearance, and otherwise the positive number that is written there. -/
inductive IsLimit (lines : List (List Char)) (key : String) (default : Nat) : Nat → Prop
  | absent (h : Absent lines limitsSection key) : IsLimit lines key default default
  | withoutValue (h : Last lines limitsSection key none) : IsLimit lines key default default
  | written {value : String} {n : Nat} (h : Last lines limitsSection key (some value))
      (hwrites : Writes n value.toList) (hpos : 0 < n) (hfits : n < 2 ^ 64) :
      IsLimit lines key default n

/-- The value at the last appearance of a limit writes no positive number that fits. -/
def IsFaulty (lines : List (List Char)) (key : String) : Prop :=
  ∃ value, Last lines limitsSection key (some value) ∧
    ∀ n, Writes n value.toList → n = 0 ∨ 2 ^ 64 ≤ n

section

variable {text : String} {s : Settings} (h : parse text = .ok s) {key : String}
  (hkey : lowered key = key)

include h hkey

/-- A limit is read exactly as the lines give it. -/
theorem readLimit_eq_ok_iff_isLimit {default n : Nat} :
    readLimit s.natural? key default = .ok n ↔ IsLimit (linesOf text) key default n := by
  rw [readLimit_eq_ok_iff, natural?_eq_none_iff h, natural?_eq_some_iff h,
    lowered_limitsSection, hkey]
  constructor
  · rintro (⟨habsent | hlast, rfl⟩ | ⟨⟨value, hlast, hwrites, hfits⟩, hpos⟩)
    · exact .absent habsent
    · exact .withoutValue hlast
    · exact .written hlast hwrites hpos hfits
  · intro hlimit
    cases hlimit with
    | absent habsent => exact Or.inl ⟨Or.inl habsent, rfl⟩
    | withoutValue hlast => exact Or.inl ⟨Or.inr hlast, rfl⟩
    | written hlast hwrites hpos hfits => exact Or.inr ⟨⟨_, hlast, hwrites, hfits⟩, hpos⟩

/-- A limit is reported, under its key, exactly if its value is faulty. -/
theorem exists_readLimit_eq_error_iff_isFaulty (default : Nat) {name : String} :
    (∃ e, readLimit s.natural? key default = .error e ∧ e.key = name) ↔
      IsFaulty (linesOf text) key ∧ name = key := by
  rw [exists_readLimit_eq_error_iff, exists_natural?_eq_error_iff h, natural?_eq_some_iff h,
    lowered_limitsSection, hkey]
  refine and_congr_left fun _ => ⟨?_, ?_⟩
  · rintro (⟨value, hlast, hlarge⟩ | ⟨value, hlast, hzero, -⟩)
    · exact ⟨value, hlast, fun n hn => Or.inr (hlarge n hn)⟩
    · exact ⟨value, hlast, fun n hn => Or.inl (hn.unique hzero)⟩
  · rintro ⟨value, hlast, hfaulty⟩
    -- zero is read as a number and then refused, the others are not read
    by_cases hzero : Writes 0 value.toList
    · exact Or.inr ⟨value, hlast, hzero, by decide⟩
    · refine Or.inl ⟨value, hlast, fun n hn => (hfaulty n hn).resolve_left ?_⟩
      rintro rfl
      exact hzero hn

/-- A limit can be used exactly if its value is not faulty. -/
theorem exists_readLimit_eq_ok_iff (default : Nat) :
    (∃ n, readLimit s.natural? key default = .ok n) ↔ ¬ IsFaulty (linesOf text) key := by
  have hfaulty : (∃ e, readLimit s.natural? key default = .error e ∧ e.key = key) ↔
      IsFaulty (linesOf text) key := by
    rw [exists_readLimit_eq_error_iff_isFaulty h hkey, and_iff_left rfl]
  rw [← hfaulty]
  cases hread : readLimit s.natural? key default with
  | ok n => simp
  | error e =>
    have herror := exists_readLimit_eq_error_iff.mp ⟨e, hread, rfl⟩
    simp [herror.2]

end

/-- The fault of the depth is reported before that of the time. -/
theorem exists_limits_eq_error_iff {text : String} {s : Settings} (h : parse text = .ok s)
    {name : String} :
    (∃ e, limits s = .error e ∧ e.key = name) ↔
      IsFaulty (linesOf text) "max_depth" ∧ name = "max_depth" ∨
        ¬ IsFaulty (linesOf text) "max_depth" ∧ IsFaulty (linesOf text) "timeout_ms" ∧
          name = "timeout_ms" := by
  rw [← exists_readLimit_eq_ok_iff h lowered_max_depth 50,
    ← exists_readLimit_eq_error_iff_isFaulty h lowered_max_depth 50,
    ← exists_readLimit_eq_error_iff_isFaulty h lowered_timeout_ms 1000]
  unfold limits readLimits
  simp only [bind_eq_error_iff]
  constructor
  · rintro ⟨e, hdepth | ⟨maxDepth, hdepth, htimeout | ⟨timeoutMs, -, hnone⟩⟩, hname⟩
    · exact Or.inl ⟨e, hdepth, hname⟩
    · exact Or.inr ⟨⟨maxDepth, hdepth⟩, e, htimeout, hname⟩
    · cases hnone
  · rintro (⟨e, hdepth, hname⟩ | ⟨⟨maxDepth, hdepth⟩, e, htimeout, hname⟩)
    · exact ⟨e, Or.inl hdepth, hname⟩
    · exact ⟨e, Or.inr ⟨maxDepth, hdepth, Or.inl htimeout⟩, hname⟩

/-- **What a text of settings gives.** Of every key in every section the number that is written at its
last appearance counts. Only a key that does not appear, or that has no value at its last appearance,
gives none and leaves a limit at its default; a value that writes no positive number of at most 64 bits
is reported, and that of the depth first. -/
theorem limits_exact {text : String} {s : Settings} (h : parse text = .ok s) :
    (∀ name key, s.natural? name key = .ok none ↔
      Absent (linesOf text) (lowered name) (lowered key) ∨
        Last (linesOf text) (lowered name) (lowered key) none) ∧
    (∀ name key n, s.natural? name key = .ok (some n) ↔
      ∃ value, Last (linesOf text) (lowered name) (lowered key) (some value) ∧
        Writes n value.toList ∧ n < 2 ^ 64) ∧
    (∀ l : Limits, limits s = .ok l ↔
      IsLimit (linesOf text) "max_depth" 50 l.maxDepth ∧
        IsLimit (linesOf text) "timeout_ms" 1000 l.timeoutMs) ∧
    ∀ name, (∃ e, limits s = .error e ∧ e.key = name) ↔
      IsFaulty (linesOf text) "max_depth" ∧ name = "max_depth" ∨
        ¬ IsFaulty (linesOf text) "max_depth" ∧ IsFaulty (linesOf text) "timeout_ms" ∧
          name = "timeout_ms" := by
  refine ⟨natural?_eq_none_iff h, natural?_eq_some_iff h, fun l => ?_, fun name =>
    exists_limits_eq_error_iff h⟩
  rw [← readLimit_eq_ok_iff_isLimit h lowered_max_depth,
    ← readLimit_eq_ok_iff_isLimit h lowered_timeout_ms]
  unfold limits readLimits
  simp only [bind_eq_ok_iff]
  constructor
  · rintro ⟨maxDepth, hmaxDepth, timeoutMs, htimeoutMs, heq⟩
    cases heq
    exact ⟨hmaxDepth, htimeoutMs⟩
  · rintro ⟨hmaxDepth, htimeoutMs⟩
    exact ⟨l.maxDepth, hmaxDepth, l.timeoutMs, htimeoutMs, rfl⟩

/-- A text with comments, two kinds of delimiters, a section in two parts and a key of that name in
another section. -/
def scatteredText : String :=
  "; limits\n[SANDBOX]\nMax_Depth = 7 # at first\n[paper]\ntimeout_ms = 5\n[ sandbox ]\nmax_depth: +012"

/-- The last number of the depth counts, and the time of another section does not. -/
theorem limits_scatteredText :
    ∃ s, parse scatteredText = .ok s ∧
      IsLimit (linesOf scatteredText) "max_depth" 50 12 ∧
      IsLimit (linesOf scatteredText) "timeout_ms" 1000 1000 := by
  have hlimits : ((parse scatteredText).toOption.bind fun s => (limits s).toOption) =
      some ⟨12, 1000⟩ := by decide +kernel
  obtain ⟨s, hs, hread⟩ := Option.bind_eq_some_iff.mp hlimits
  have hparse : parse scatteredText = .ok s := eq_ok_of_toOption hs
  obtain ⟨-, -, hgiven, -⟩ := limits_exact hparse
  exact ⟨s, hparse, (hgiven ⟨12, 1000⟩).mp (eq_ok_of_toOption hread)⟩

/-- A text that sets the depth, and then names it without a value. -/
def bareKeyText : String :=
  "[sandbox]\nmax_depth = 5\nmax_depth\n"

/-- A key that is written without a value is taken for one that is not there: the limit of the line
before it is given up for the default, and nothing is reported. -/
theorem bare_key_is_ignored :
    ∃ s, parse bareKeyText = .ok s ∧ ¬ Absent (linesOf bareKeyText) "sandbox" "max_depth" ∧
      s.natural? "sandbox" "max_depth" = .ok none ∧ limits s = .ok ⟨50, 1000⟩ := by
  have hread : ((parse bareKeyText).toOption.bind fun s => s.get? "sandbox" "max_depth") =
      some none := by decide +kernel
  obtain ⟨s, hs, hget⟩ := Option.bind_eq_some_iff.mp hread
  have hparse : parse bareKeyText = .ok s := eq_ok_of_toOption hs
  have hlimits : ((parse bareKeyText).toOption.bind fun s => (limits s).toOption) =
      some ⟨50, 1000⟩ := by decide +kernel
  rw [hs] at hlimits
  refine ⟨s, hparse, ?_, ?_, eq_ok_of_toOption hlimits⟩
  · have hlast := (get?_eq_some_iff hparse).mp hget
    rw [← limitsSection, lowered_limitsSection, lowered_max_depth] at hlast
    exact fun habsent => absent_iff.mp habsent none hlast
  · rw [natural?, hget]

end TradingRules.Settings
