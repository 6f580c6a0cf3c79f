/-
# Texts that occur in a signal

A signal contains a text in whatever case if the one occurs in the other after both are lower-cased as
wholes. So a text that occurs in a signal as it is, counts where its capital sigmas have the forms
that they have in the text alone; and it counts in every signal exactly if it has no sigma of which
the form depends on what stands around.
-/
import TradingRules.Evaluation.Basic
import TradingRules.Proofs.Json.Mention
import TradingRules.Proofs.Text.Lowercase

namespace TradingRules

open Text (HasOpenSigma SameSigmas lower)

theorem containsIgnoringCase_iff {text part : String} :
    containsIgnoringCase text part = true ↔ lower part.toList <:+: lower text.toList :=
  Text.occursIn_iff

namespace Condition

/-- A condition on the text of a signal does not depend on the market. -/
theorem isTrue_tweetContains_iff {text signal : String} {market : Market} :
    (holds (.tweetContains text)).isTrue ⟨⟨signal⟩, market⟩ = true ↔
      lower text.toList <:+: lower signal.toList :=
  containsIgnoringCase_iff

/-- **When a text that occurs in a signal counts.** An occurrence counts if the capital sigmas of the
text have the same forms there as in the text alone. All occurrences in all signals count exactly if
the text has no open sigma, that is none at its beginning with no letter behind it, and none behind a
letter at its end, case-ignorable characters apart. -/
theorem verbatim_exact (text : String) (market : Market) :
    (∀ before after : String, SameSigmas before.toList.reverse text.toList after.toList [] [] →
      (holds (.tweetContains text)).isTrue ⟨⟨before ++ text ++ after⟩, market⟩ = true) ∧
    ((∀ before after : String,
      (holds (.tweetContains text)).isTrue ⟨⟨before ++ text ++ after⟩, market⟩ = true) ↔
        ¬ HasOpenSigma text.toList) := by
  have hchars (before after : String) : (before ++ text ++ after).toList =
      before.toList ++ (text.toList ++ after.toList) := by
    rw [String.toList_append, String.toList_append, List.append_assoc]
  constructor
  · intro before after hsame
    rw [isTrue_tweetContains_iff, hchars]
    exact Text.lower_isInfix hsame
  · rw [← Text.lower_isInfix_iff]
    constructor
    · intro h before after
      have hcounts := h (String.ofList before) (String.ofList after)
      rw [isTrue_tweetContains_iff, hchars, String.toList_ofList, String.toList_ofList] at hcounts
      exact hcounts
    · intro h before after
      rw [isTrue_tweetContains_iff, hchars]
      exact h before.toList after.toList

/-- A word counts between other words, and a text that begins with a sigma and goes on with a letter
counts within words. -/
theorem verbatim_of_greekWords :
    (holds (.tweetContains "ΟΔΟΣ")).isTrue ⟨⟨"Η " ++ "ΟΔΟΣ" ++ ", ΚΑΙ"⟩, {}⟩ = true ∧
      (holds (.tweetContains "ΣΟΛ")).isTrue ⟨⟨"Α" ++ "ΣΟΛ" ++ "Σ"⟩, {}⟩ = true := by
  have hsame : SameSigmas "Η ".toList.reverse "ΟΔΟΣ".toList ", ΚΑΙ".toList [] [] :=
    Text.lowerBetween_eq_iff.mp (by decide +kernel)
  have hclosed : ¬ HasOpenSigma "ΣΟΛ".toList := by
    have hchars : "ΣΟΛ".toList = 'Σ' :: ['Ο', 'Λ'] := by decide +kernel
    rintro ⟨p, q, hsplit, h⟩
    rw [hchars] at hsplit
    cases p with
    | nil =>
      -- a letter follows the sigma, and none precedes it
      cases hsplit
      rcases h with ⟨-, hnone⟩ | ⟨hletter, -⟩
      · exact absurd hnone (by decide +kernel)
      · cases hletter
    | cons c p =>
      have hmem : 'Σ' ∈ ['Ο', 'Λ'] := by
        rw [(List.cons.inj hsplit).2]
        exact List.mem_append_right p List.mem_cons_self
      exact absurd hmem (by decide)
  exact ⟨(verbatim_exact "ΟΔΟΣ" {}).1 "Η " ", ΚΑΙ" hsame,
    (verbatim_exact "ΣΟΛ" {}).2.mpr hclosed "Α" "Σ"⟩

/-- A word with a sigma at its end is missed in a longer word, and a sigma alone behind a letter. -/
theorem word_missed_in_longer_word :
    (holds (.tweetContains "ΟΔΟΣ")).isTrue ⟨⟨"" ++ "ΟΔΟΣ" ++ "Α"⟩, {}⟩ = false ∧
      (holds (.tweetContains "Σ")).isTrue ⟨⟨"Α" ++ "Σ" ++ ""⟩, {}⟩ = false := by
  decide +kernel

end Condition

end TradingRules
