/-
# What the content scan refuses

The scan looks through the compact text of a tree, yet it refuses the tree only for what stands in
one of its texts, escapes included, wherever that text is. The word it names is the first of the
list for which this is so.
-/
import TradingRules.Proofs.Json.Mention
import TradingRules.Sandbox.Content

namespace TradingRules.Sandbox

open TradingRules.Json (IsWord Mentions)

/-- The unwanted words are words. -/
theorem isWord_of_mem {pattern : String} (h : pattern ∈ dangerousPatterns) :
    IsWord pattern.toList where
  letters := by
    have hall : ∀ pattern ∈ dangerousPatterns, ∀ c ∈ pattern.toList, c.isAlpha = true ∨ c = '_' := by
      simp [dangerousPatterns]
    exact hall pattern h
  not_exponent := by
    have hall : ∀ pattern ∈ dangerousPatterns, ∃ c ∈ pattern.toList, c.isAlpha = true ∧ c ≠ 'e' := by
      simp [dangerousPatterns]
    exact hall pattern h
  not_null := by
    have hall : ∀ pattern ∈ dangerousPatterns, ¬ pattern.toList <:+: "null".toList := by decide
    exact hall pattern h
  not_true := by
    have hall : ∀ pattern ∈ dangerousPatterns, ¬ pattern.toList <:+: "true".toList := by decide
    exact hall pattern h
  not_false := by
    have hall : ∀ pattern ∈ dangerousPatterns, ¬ pattern.toList <:+: "false".toList := by decide
    exact hall pattern h

/-- A word is found in the compact text of a tree exactly if the tree mentions it. -/
theorem occursIn_compact_iff {pattern : String} (h : pattern ∈ dangerousPatterns) (root : Json) :
    Text.occursIn pattern.toList root.compact.toList = true ↔ Mentions pattern.toList root :=
  Text.occursIn_iff.trans (Json.infix_compact_iff (isWord_of_mem h) root)

/-- A tree is refused for the first word of the list that it mentions. -/
theorem scanContent_eq_error_iff {root : Json} {e : Error} :
    scanContent root = .error e ↔
      ∃ front pattern back, dangerousPatterns = front ++ pattern :: back ∧
        e = .dangerousPattern pattern ∧ Mentions pattern.toList root ∧
        ∀ earlier ∈ front, ¬ Mentions earlier.toList root := by
  have hscan : scanContent root = .error e ↔
      ∃ pattern, patternIn? root.compact.toList = some pattern ∧ e = .dangerousPattern pattern := by
    unfold scanContent
    cases patternIn? root.compact.toList with
    | none => simp
    | some pattern => simp [eq_comm]
  rw [hscan]
  constructor
  · rintro ⟨pattern, hfirst, rfl⟩
    obtain ⟨hoccurs, front, back, hlist, hearlier⟩ := List.find?_eq_some_iff_append.mp hfirst
    refine ⟨front, pattern, back, hlist, rfl, ?_, fun earlier hmem hmentions => ?_⟩
    · exact (occursIn_compact_iff (by simp [hlist]) root).mp hoccurs
    · have hfound := (occursIn_compact_iff (by simp [hlist, hmem]) root).mpr hmentions
      have hnot := hearlier earlier hmem
      rw [hfound] at hnot
      cases hnot
  · rintro ⟨front, pattern, back, hlist, rfl, hmentions, hearlier⟩
    refine ⟨pattern, List.find?_eq_some_iff_append.mpr ⟨?_, front, back, hlist, ?_⟩, rfl⟩
    · exact (occursIn_compact_iff (by simp [hlist]) root).mpr hmentions
    · intro earlier hmem
      rw [Bool.not_eq_true', Bool.eq_false_iff]
      intro hfound
      exact hearlier earlier hmem
        ((occursIn_compact_iff (by simp [hlist, hmem]) root).mp hfound)

/-- A tree passes exactly if it mentions none of the words. -/
theorem scanContent_eq_ok_iff {root : Json} :
    scanContent root = .ok () ↔ ∀ pattern ∈ dangerousPatterns, ¬ Mentions pattern.toList root := by
  have hnone : scanContent root = .ok () ↔ patternIn? root.compact.toList = none := by
    unfold scanContent
    cases patternIn? root.compact.toList <;> simp
  rw [hnone, patternIn?, List.find?_eq_none]
  constructor
  · intro h pattern hmem hmentions
    exact h pattern hmem ((occursIn_compact_iff hmem root).mpr hmentions)
  · intro h pattern hmem hfound
    exact h pattern hmem ((occursIn_compact_iff hmem root).mp hfound)

/-- What is in front of the last word of the list contains the word that is a part of it. -/
theorem process_mem_of_eq_append {front back : List String}
    (h : dangerousPatterns = front ++ "child_process" :: back) : "process" ∈ front := by
  have hfront : front = dangerousPatterns.take front.length := by rw [h, List.take_left]
  have hplace : dangerousPatterns[front.length]? = some "child_process" := by
    simp [h]
  have hbound : front.length < dangerousPatterns.length := by
    rw [h, List.length_append, List.length_cons]
    omega
  have hall : ∀ i < dangerousPatterns.length, dangerousPatterns[i]? = some "child_process" →
      "process" ∈ dangerousPatterns.take i := by
    decide
  rw [hfront]
  exact hall front.length hbound hplace

/-- The scan misses nothing: a word in a string or in the name of a member, at any depth and under
any member, has the tree refused. It refuses nothing else: the word it names stands in a single text
of the tree as that is written, and it is the first of the list that does. So it never names the
word that contains another one of the list. -/
theorem scanContent_exact (root : Json) :
    (∀ s pattern, root.HasText s → pattern ∈ dangerousPatterns →
      pattern.toList <:+: s.toList → ∃ e, scanContent root = .error e) ∧
    (∀ e, scanContent root = .error e ↔
      ∃ front pattern back, dangerousPatterns = front ++ pattern :: back ∧
        e = .dangerousPattern pattern ∧
        (∃ s, root.HasText s ∧ pattern.toList <:+: Json.escaped s) ∧
        ∀ earlier ∈ front, ¬ ∃ s, root.HasText s ∧ earlier.toList <:+: Json.escaped s) ∧
    scanContent root ≠ .error (.dangerousPattern "child_process") := by
  refine ⟨fun s pattern htext hmem hs => ?_, fun e => scanContent_eq_error_iff, fun h => ?_⟩
  · have hmentions : Mentions pattern.toList root :=
      ⟨s, htext, (isWord_of_mem hmem).infix_escaped hs⟩
    cases hscan : scanContent root with
    | ok =>
      exact absurd hmentions (scanContent_eq_ok_iff.mp hscan pattern hmem)
    | error e => exact ⟨e, rfl⟩
  · obtain ⟨front, pattern, back, hlist, he, ⟨s, htext, hs⟩, hearlier⟩ :=
      scanContent_eq_error_iff.mp h
    cases he
    -- the shorter word stands wherever the longer one does, and it is looked for before it
    have hpart : "process".toList <:+: "child_process".toList := by decide
    exact hearlier "process" (process_mem_of_eq_append hlist) ⟨s, htext, hpart.trans hs⟩

/-- The name of a member is seen where the walk of the structure does not go. -/
theorem scanContent_hidden_name :
    ∃ e, scanContent (.object [("note", .array [.object [("evaluate", .null)]])]) = .error e := by
  refine (scanContent_exact _).1 "evaluate" "eval" ?_ (by decide) (by decide)
  exact .value List.mem_cons_self (.item List.mem_cons_self (.name List.mem_cons_self))

end TradingRules.Sandbox
