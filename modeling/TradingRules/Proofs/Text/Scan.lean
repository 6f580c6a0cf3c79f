/-
# What the scanners read

Each scanner is compared with the shape of the texts that it accepts: the text is what was read,
spelled out, followed by what the scanner gives back. The shapes allow any blanks between the parts;
a scanner skips as many as it can, which makes no difference since no part begins with a blank.
-/
import TradingRules.Proofs.Text.Trim
import TradingRules.Text.Scan

namespace TradingRules.Text

/-- A word is read exactly off the texts that begin with it. -/
theorem afterWord_eq_some_iff {word text rest : List Char} :
    afterWord word text = some rest ↔ text = word ++ rest := by
  unfold afterWord
  constructor
  · intro h
    split at h
    · rename_i hprefix
      obtain ⟨tail, rfl⟩ := List.isPrefixOf_iff_prefix.mp hprefix
      rw [List.drop_left] at h
      cases h
      rfl
    · cases h
  · rintro rfl
    rw [if_pos (List.isPrefixOf_iff_prefix.mpr (List.prefix_append word rest)), List.drop_left]

/-- A character is read exactly off the texts that begin with it. -/
theorem afterChar_eq_some_iff {expected : Char} {text rest : List Char} :
    afterChar expected text = some rest ↔ text = expected :: rest := by
  cases text with
  | nil => simp [afterChar]
  | cons c tail =>
    rw [afterChar]
    constructor
    · intro h
      split at h
      · rename_i hc
        cases h
        rw [hc]
      · cases h
    · intro h
      cases h
      rw [if_pos rfl]

/-- A character that is no blank is read behind any blanks. -/
theorem afterChar_trimStart_eq_some_iff {expected : Char} {text rest : List Char}
    (h : isBlank expected = false) :
    afterChar expected (trimStart text) = some rest ↔
      ∃ ws, AllBlank ws ∧ text = ws ++ expected :: rest := by
  rw [afterChar_eq_some_iff]
  constructor
  · intro htrim
    obtain ⟨ws, hws, htext⟩ := exists_trimStart text
    exact ⟨ws, hws, htrim ▸ htext⟩
  · rintro ⟨ws, hws, rfl⟩
    rw [trimStart_append hws, trimStart_eq_self]
    intro c hc
    cases hc
    exact h

/-- Reading up to a stop takes everything in front of the first one. -/
theorem takeUntil_eq_some_iff {stop : Char → Bool} {text taken rest : List Char} :
    takeUntil stop text = some (taken, rest) ↔
      text = taken ++ rest ∧ (∀ c ∈ taken, stop c = false) ∧
        ∃ c tail, rest = c :: tail ∧ stop c = true := by
  induction text generalizing taken with
  | nil =>
    constructor
    · intro h
      cases h
    · rintro ⟨htext, -, c, tail, rfl, -⟩
      simp at htext
  | cons c text ih =>
    rw [takeUntil]
    by_cases hstop : stop c = true
    · rw [if_pos hstop]
      constructor
      · intro h
        cases h
        exact ⟨rfl, fun _ h => absurd h List.not_mem_nil, c, text, rfl, hstop⟩
      · rintro ⟨htext, htaken, -⟩
        cases taken with
        | nil => rw [htext, List.nil_append]
        | cons c' taken =>
          cases htext
          rw [htaken c List.mem_cons_self] at hstop
          cases hstop
    · rw [if_neg hstop, Option.map_eq_some_iff]
      constructor
      · rintro ⟨⟨taken', rest'⟩, hread, heq⟩
        cases heq
        obtain ⟨htext, htaken, hrest⟩ := ih.mp hread
        refine ⟨by rw [htext, List.cons_append], ?_, hrest⟩
        intro c' hc'
        rcases List.mem_cons.mp hc' with rfl | hc'
        · exact Bool.eq_false_iff.mpr hstop
        · exact htaken c' hc'
      · rintro ⟨htext, htaken, c', tail, hrest, hc'⟩
        cases taken with
        | nil =>
          rw [List.nil_append, hrest] at htext
          cases htext
          exact absurd hc' hstop
        | cons c'' taken =>
          cases htext
          refine ⟨(taken, rest), ih.mpr ⟨rfl, ?_, c', tail, hrest, hc'⟩, rfl⟩
          exact fun x hx => htaken x (List.mem_cons_of_mem _ hx)

/-- Reading up to a stop fails exactly if there is none. -/
theorem takeUntil_eq_none_iff {stop : Char → Bool} {text : List Char} :
    takeUntil stop text = none ↔ ∀ c ∈ text, stop c = false := by
  induction text with
  | nil => simp [takeUntil]
  | cons c text ih =>
    rw [takeUntil]
    by_cases hstop : stop c = true
    · simp [hstop]
    · rw [if_neg hstop, Option.map_eq_none_iff, ih, List.forall_mem_cons]
      exact ⟨fun h => ⟨Bool.eq_false_iff.mpr hstop, h⟩, And.right⟩

/-- Reading up to a given character. -/
theorem takeUntil_beq_eq_some_iff {mark : Char} {text taken rest : List Char} :
    takeUntil (· == mark) text = some (taken, rest) ↔
      ∃ tail, rest = mark :: tail ∧ mark ∉ taken ∧ text = taken ++ mark :: tail := by
  rw [takeUntil_eq_some_iff]
  constructor
  · rintro ⟨htext, htaken, c, tail, rfl, hc⟩
    rw [beq_iff_eq] at hc
    subst hc
    refine ⟨tail, rfl, fun hmem => ?_, htext⟩
    have := htaken c hmem
    rw [beq_self_eq_true] at this
    cases this
  · rintro ⟨tail, rfl, hmem, rfl⟩
    refine ⟨rfl, fun c hc => ?_, mark, tail, rfl, beq_self_eq_true mark⟩
    rw [beq_eq_false_iff_ne]
    rintro rfl
    exact hmem hc

/-- Arguments are read off the texts that begin with a pair of parentheses; they run to the first
closing one. -/
theorem parenthesized_eq_some_iff {text arguments rest : List Char} :
    parenthesized text = some (arguments, rest) ↔
      ∃ ws, AllBlank ws ∧ ')' ∉ arguments ∧ text = ws ++ '(' :: (arguments ++ ')' :: rest) := by
  unfold parenthesized
  simp only [Option.bind_eq_bind, Option.bind_eq_some_iff, Option.pure_def, Option.some_inj]
  constructor
  · rintro ⟨inner, hinner, ⟨taken, close⟩, hread, heq⟩
    rw [afterChar_trimStart_eq_some_iff (by decide)] at hinner
    obtain ⟨tail, rfl, hmem, rfl⟩ := takeUntil_beq_eq_some_iff.mp hread
    cases heq
    obtain ⟨ws, hws, htext⟩ := hinner
    exact ⟨ws, hws, hmem, htext⟩
  · rintro ⟨ws, hws, hmem, htext⟩
    refine ⟨arguments ++ ')' :: rest, ?_, (arguments, ')' :: rest), ?_, rfl⟩
    · rw [afterChar_trimStart_eq_some_iff (by decide)]
      exact ⟨ws, hws, htext⟩
    · exact takeUntil_beq_eq_some_iff.mpr ⟨rest, rfl, hmem, rfl⟩

theorem isBlank_of_isQuote {c : Char} (h : isQuote c = true) : isBlank c = false := by
  rw [isQuote, Bool.or_eq_true, beq_iff_eq, beq_iff_eq] at h
  rcases h with rfl | rfl <;> decide

/-- A quoted text stands between two quotes, of whichever kind, is not empty and holds no quote. -/
theorem quoted_eq_some_iff {text content rest : List Char} :
    quoted text = some (content, rest) ↔
      ∃ q q', isQuote q = true ∧ isQuote q' = true ∧ content ≠ [] ∧
        (∀ c ∈ content, isQuote c = false) ∧ text = q :: content ++ q' :: rest := by
  cases text with
  | nil => simp [quoted]
  | cons q tail =>
    rw [quoted]
    constructor
    · intro h
      split at h
      · rename_i hq
        simp only [Option.bind_eq_bind, Option.bind_eq_some_iff] at h
        obtain ⟨⟨taken, close⟩, hread, h⟩ := h
        split at h
        · cases h
        · rename_i hempty
          obtain ⟨htail, htaken, q', rest', rfl, hq'⟩ := takeUntil_eq_some_iff.mp hread
          cases h
          refine ⟨q, q', hq, hq', ?_, htaken, by rw [htail]; rfl⟩
          rintro rfl
          exact hempty rfl
      · cases h
    · rintro ⟨p, q', hp, hq', hempty, hcontent, htext⟩
      rw [List.cons_append, List.cons.injEq] at htext
      obtain ⟨rfl, rfl⟩ := htext
      rw [if_pos hp]
      have hread : takeUntil isQuote (content ++ q' :: rest) = some (content, q' :: rest) :=
        takeUntil_eq_some_iff.mpr ⟨rfl, hcontent, q', rest, rfl, hq'⟩
      simp only [Option.bind_eq_bind, hread, Option.bind_some]
      rw [if_neg (by simpa using hempty)]
      rfl

/-- The texts that begin with a call of a word on a quoted text, with blanks between the parts. -/
def IsQuotedCall (word content rest text : List Char) : Prop :=
  ∃ ws₁ ws₂ ws₃ q q', AllBlank ws₁ ∧ AllBlank ws₂ ∧ AllBlank ws₃ ∧
    isQuote q = true ∧ isQuote q' = true ∧ content ≠ [] ∧ (∀ c ∈ content, isQuote c = false) ∧
    text = word ++ ws₁ ++ '(' :: ws₂ ++ q :: content ++ q' :: ws₃ ++ ')' :: rest

/-- A call of a word on a quoted text ends with a closing parenthesis. -/
theorem IsQuotedCall.exists_eq_append {word content rest text : List Char}
    (h : IsQuotedCall word content rest text) : ∃ middle, text = word ++ middle ++ ')' :: rest := by
  obtain ⟨ws₁, ws₂, ws₃, q, q', -, -, -, -, -, -, -, rfl⟩ := h
  refine ⟨ws₁ ++ '(' :: ws₂ ++ q :: content ++ q' :: ws₃, ?_⟩
  simp only [List.append_assoc, List.cons_append]

/-- A quoted text is read behind any blanks. -/
theorem quoted_trimStart_eq_some_iff {text content rest : List Char} :
    quoted (trimStart text) = some (content, rest) ↔
      ∃ ws q q', AllBlank ws ∧ isQuote q = true ∧ isQuote q' = true ∧ content ≠ [] ∧
        (∀ c ∈ content, isQuote c = false) ∧ text = ws ++ q :: content ++ q' :: rest := by
  rw [quoted_eq_some_iff]
  constructor
  · rintro ⟨q, q', hq, hq', hempty, hcontent, htrim⟩
    obtain ⟨ws, hws, htext⟩ := exists_trimStart text
    refine ⟨ws, q, q', hws, hq, hq', hempty, hcontent, ?_⟩
    rw [htext, htrim]
    simp only [List.append_assoc, List.cons_append]
  · rintro ⟨ws, q, q', hws, hq, hq', hempty, hcontent, rfl⟩
    refine ⟨q, q', hq, hq', hempty, hcontent, ?_⟩
    rw [List.append_assoc, trimStart_append hws, trimStart_eq_self]
    intro c hc
    cases hc
    exact isBlank_of_isQuote hq

/-- A quoted call is read exactly off the texts that begin with one. -/
theorem quotedCall_eq_some_iff {word text content rest : List Char} :
    quotedCall word text = some (content, rest) ↔ IsQuotedCall word content rest text := by
  unfold quotedCall IsQuotedCall
  simp only [Option.bind_eq_bind, Option.bind_eq_some_iff, Option.pure_def, Option.some_inj]
  constructor
  · rintro ⟨call, hcall, inner, hinner, ⟨content', tail⟩, hquoted, rest', hclose, heq⟩
    cases heq
    rw [afterWord_eq_some_iff] at hcall
    rw [afterChar_trimStart_eq_some_iff (by decide)] at hinner hclose
    rw [quoted_trimStart_eq_some_iff] at hquoted
    obtain ⟨ws₁, hws₁, rfl⟩ := hinner
    obtain ⟨ws₃, hws₃, rfl⟩ := hclose
    obtain ⟨ws₂, q, q', hws₂, hq, hq', hempty, hcontent, rfl⟩ := hquoted
    refine ⟨ws₁, ws₂, ws₃, q, q', hws₁, hws₂, hws₃, hq, hq', hempty, hcontent, ?_⟩
    rw [hcall]
    simp only [List.append_assoc, List.cons_append]
  · rintro ⟨ws₁, ws₂, ws₃, q, q', hws₁, hws₂, hws₃, hq, hq', hempty, hcontent, rfl⟩
    refine ⟨ws₁ ++ '(' :: (ws₂ ++ q :: content ++ q' :: (ws₃ ++ ')' :: rest)), ?_,
      ws₂ ++ q :: content ++ q' :: (ws₃ ++ ')' :: rest), ?_, (content, ws₃ ++ ')' :: rest), ?_,
      rest, ?_, rfl⟩
    · rw [afterWord_eq_some_iff]
      simp only [List.append_assoc, List.cons_append]
    · rw [afterChar_trimStart_eq_some_iff (by decide)]
      exact ⟨ws₁, hws₁, rfl⟩
    · rw [quoted_trimStart_eq_some_iff]
      exact ⟨ws₂, q, q', hws₂, hq, hq', hempty, hcontent, rfl⟩
    · rw [afterChar_trimStart_eq_some_iff (by decide)]
      exact ⟨ws₃, hws₃, rfl⟩

/-- The texts that begin with a call of a word on digits, with blanks between the parts. -/
def IsIntegerCall (word digits rest text : List Char) : Prop :=
  ∃ ws₁ ws₂ ws₃, AllBlank ws₁ ∧ AllBlank ws₂ ∧ AllBlank ws₃ ∧ digits ≠ [] ∧
    (∀ c ∈ digits, c.isDigit = true) ∧
    text = word ++ ws₁ ++ '(' :: ws₂ ++ digits ++ ws₃ ++ ')' :: rest

/-- A character that is a digit is no blank. -/
theorem isBlank_of_isDigit {c : Char} (h : c.isDigit = true) : isBlank c = false := by
  rw [Char.isDigit, Bool.and_eq_true, decide_eq_true_eq, decide_eq_true_eq] at h
  have hlow : 48 ≤ c.toNat := h.1
  have hhigh : c.toNat ≤ 57 := h.2
  rw [isBlank]
  generalize c.toNat = n at hlow hhigh
  revert n
  decide +kernel

/-- What satisfies a test is split off what begins with a character that does not. -/
theorem span_append {p : Char → Bool} {front : List Char} (hfront : ∀ c ∈ front, p c = true)
    (tail : List Char) (htail : ∀ c, tail.head? = some c → p c = false) :
    (front ++ tail).takeWhile p = front ∧ (front ++ tail).dropWhile p = tail := by
  have hstop : tail.takeWhile p = [] ∧ tail.dropWhile p = tail := by
    cases tail with
    | nil => exact ⟨rfl, rfl⟩
    | cons c tail =>
      have hc : ¬ p c = true := by
        rw [htail c rfl]
        exact Bool.false_ne_true
      exact ⟨List.takeWhile_cons_of_neg hc, List.dropWhile_cons_of_neg hc⟩
  rw [List.takeWhile_append_of_pos hfront, List.dropWhile_append_of_pos hfront, hstop.1, hstop.2,
    List.append_nil]
  exact ⟨rfl, rfl⟩

/-- Digits are read as far as they go, behind any blanks. -/
theorem takeWhile_isDigit_trimStart {ws digits tail : List Char} (hws : AllBlank ws)
    (hne : digits ≠ []) (hdigits : ∀ c ∈ digits, c.isDigit = true)
    (htail : ∀ c, tail.head? = some c → c.isDigit = false) :
    (trimStart (ws ++ (digits ++ tail))).takeWhile Char.isDigit = digits ∧
      (trimStart (ws ++ (digits ++ tail))).dropWhile Char.isDigit = tail := by
  have hstart : trimStart (ws ++ (digits ++ tail)) = digits ++ tail := by
    rw [trimStart_append hws, trimStart_eq_self]
    intro c hc
    rw [List.head?_append_of_ne_nil _ hne] at hc
    exact isBlank_of_isDigit (hdigits c (List.mem_of_head? hc))
  rw [hstart]
  exact span_append hdigits tail htail

/-- A call on digits is read exactly off the texts that begin with one. -/
theorem integerCall_eq_some_iff {word text digits rest : List Char} :
    integerCall word text = some (digits, rest) ↔ IsIntegerCall word digits rest text := by
  unfold integerCall IsIntegerCall
  simp only [Option.bind_eq_bind, Option.bind_eq_some_iff, Option.pure_def]
  constructor
  · rintro ⟨call, hcall, inner, hinner, h⟩
    split at h
    · cases h
    · rename_i hempty
      obtain ⟨rest', hclose, heq⟩ := Option.bind_eq_some_iff.mp h
      cases heq
      rw [afterWord_eq_some_iff] at hcall
      rw [afterChar_trimStart_eq_some_iff (by decide)] at hinner hclose
      obtain ⟨ws₁, hws₁, rfl⟩ := hinner
      obtain ⟨ws₂, hws₂, htrim⟩ := exists_trimStart inner
      obtain ⟨ws₃, hws₃, htail⟩ := hclose
      refine ⟨ws₁, ws₂, ws₃, hws₁, hws₂, hws₃, ?_, fun c hc => List.mem_takeWhile_imp hc, ?_⟩
      · rwa [List.isEmpty_iff] at hempty
      · have hinner : inner = ws₂ ++ ((trimStart inner).takeWhile Char.isDigit ++
            (ws₃ ++ ')' :: rest)) := by
          rw [← htail, List.takeWhile_append_dropWhile]
          exact htrim
        rw [hcall]
        conv_lhs => rw [hinner]
        simp only [List.append_assoc, List.cons_append]
  · rintro ⟨ws₁, ws₂, ws₃, hws₁, hws₂, hws₃, hne, hdigits, rfl⟩
    have hstop : ∀ c, (ws₃ ++ ')' :: rest).head? = some c → c.isDigit = false := by
      intro c hc
      cases ws₃ with
      | nil =>
        cases hc
        decide
      | cons c' ws₃ =>
        cases hc
        by_contra hdigit
        rw [Bool.not_eq_false] at hdigit
        have hblank := hws₃ c List.mem_cons_self
        rw [isBlank_of_isDigit hdigit] at hblank
        cases hblank
    obtain ⟨htake, hdrop⟩ := takeWhile_isDigit_trimStart hws₂ hne hdigits hstop
    refine ⟨ws₁ ++ '(' :: (ws₂ ++ (digits ++ (ws₃ ++ ')' :: rest))), ?_,
      ws₂ ++ (digits ++ (ws₃ ++ ')' :: rest)), ?_, ?_⟩
    · rw [afterWord_eq_some_iff]
      simp only [List.append_assoc, List.cons_append]
    · rw [afterChar_trimStart_eq_some_iff (by decide)]
      exact ⟨ws₁, hws₁, rfl⟩
    · rw [htake, hdrop, if_neg (by rwa [List.isEmpty_iff]), Option.bind_eq_some_iff]
      refine ⟨rest, ?_, rfl⟩
      rw [afterChar_trimStart_eq_some_iff (by decide)]
      exact ⟨ws₃, hws₃, rfl⟩

/-- A call of a word on digits ends with a closing parenthesis. -/
theorem IsIntegerCall.exists_eq_append {word digits rest text : List Char}
    (h : IsIntegerCall word digits rest text) : ∃ middle, text = word ++ middle ++ ')' :: rest := by
  obtain ⟨ws₁, ws₂, ws₃, -, -, -, -, -, rfl⟩ := h
  refine ⟨ws₁ ++ '(' :: ws₂ ++ digits ++ ws₃, ?_⟩
  simp only [List.append_assoc, List.cons_append]

/-- A scanner uses up a text when it leaves nothing. -/
theorem whole_eq_some_iff {α : Type} {scan : List Char → Option (α × List Char)}
    {text : List Char} {found : α} : whole scan text = some found ↔ scan text = some (found, []) := by
  unfold whole
  constructor
  · intro h
    split at h
    · rename_i found' hscan
      cases h
      exact hscan
    · cases h
  · intro h
    rw [h]

end TradingRules.Text
