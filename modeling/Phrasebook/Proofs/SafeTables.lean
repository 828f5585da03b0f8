import Phrasebook.Proofs.Consistent
/-!
# Validation accepts exactly the safe tables

The two tests of validation look at a source and a target by themselves, without any text around
them. They are sound: a target that passes is inert for the source. They are also complete: from
each way to fail one of them a text can be made in which the source shares a symbol with the target.
So a list of phrases is refused only if a source is empty or repeated, a target is empty, or some
text would bring a target to life.

## Main results

* `not_inert_of_occursIn`, `not_inert_of_straddles`: a text for each way to fail a test.
* `tests_eq_false_iff`: the two tests decide inertness.
* `PhraseTable.exists_ofList_eq_ok_iff`: the lists that validation accepts.
-/

namespace Phrasebook

section

variable {α : Type} {word target : List α}

/-- A text that can be read around the target and around the word, so that both share a symbol. -/
theorem not_inert_of_append_eq (before after front back : List α)
    (htext : before ++ (target ++ after) = front ++ (word ++ back))
    (hmeets : max front.length before.length <
      min (front.length + word.length) (before.length + target.length)) :
    ¬ Inert word target := by
  intro h
  exact h before after front.length (htext ▸ occursAt_append) hmeets

variable [DecidableEq α]

/-- A word inside the target needs no text around it. -/
theorem not_inert_of_occursIn (hword : word ≠ []) (h : occursIn word target = true) :
    ¬ Inert word target := by
  obtain ⟨front, back, rfl⟩ := occursIn_iff.1 h
  have hpos := List.length_pos_of_ne_nil hword
  refine not_inert_of_append_eq [] [] front back (by simp) ?_
  simp only [List.length_append, List.length_nil]
  omega

/-- A word around the target or across an edge of it brings along the text that it needs. -/
theorem not_inert_of_straddles (htarget : target ≠ []) (h : straddles target word = true) :
    ¬ Inert word target := by
  rcases straddles_iff.1 h with ⟨before, after, rfl⟩ |
    ⟨front, back, after, -, hback, rfl, rfl⟩ | ⟨front, back, before, hfront, -, rfl, rfl⟩
  · have hpos := List.length_pos_of_ne_nil htarget
    refine not_inert_of_append_eq before after [] [] (by simp) ?_
    simp only [List.length_append, List.length_nil]
    omega
  · have hpos := List.length_pos_of_ne_nil hback
    refine not_inert_of_append_eq [] after front [] (by simp) ?_
    simp only [List.length_append, List.length_nil]
    omega
  · have hpos := List.length_pos_of_ne_nil hfront
    refine not_inert_of_append_eq before [] [] back (by simp) ?_
    simp only [List.length_append, List.length_nil]
    omega

/-- **The two tests decide inertness.** An empty word is found in every target, and an empty target
inside every word, so that neither passes. -/
theorem tests_eq_false_iff :
    occursIn word target = false ∧ straddles target word = false ↔
      word ≠ [] ∧ target ≠ [] ∧ Inert word target := by
  constructor
  · rintro ⟨hin, hstr⟩
    refine ⟨?_, ne_nil_of_straddles_eq_false hstr, inert_of_straddles_eq_false hin hstr⟩
    rintro rfl
    have hempty : occursIn [] target = true := occursIn_iff.2 ⟨[], target, rfl⟩
    rw [hempty] at hin
    cases hin
  · rintro ⟨hword, htarget, hinert⟩
    rw [← Bool.not_eq_true, ← Bool.not_eq_true]
    exact ⟨fun hin => not_inert_of_occursIn hword hin hinert,
      fun hstr => not_inert_of_straddles htarget hstr hinert⟩

end

namespace PhraseTable

/-- **Validation accepts exactly the safe tables**: those without empty sources, repeated sources or
empty targets, in which no text brings a target of a substituting phrase to share a symbol with an
occurrence of a source that is replaced. The two tests refuse nothing else, and let nothing else
pass. -/
theorem exists_ofList_eq_ok_iff (phrases : List (Phrase Char)) :
    ((∃ table, ofList phrases = .ok table) ↔
      (∀ p ∈ phrases, p.source ≠ []) ∧ (phrases.map Phrase.source).Nodup ∧
        (∀ p ∈ phrases, p.target ≠ []) ∧
        ∀ p ∈ phrases, ¬ p.IsIdentity → ∀ o ∈ phrases, ¬ o.IsIdentity →
          Inert o.source p.target) ∧
    ∀ source target : Text,
      occursIn source target = false ∧ straddles target source = false ↔
        source ≠ [] ∧ target ≠ [] ∧ Inert source target := by
  refine ⟨?_, fun source target => tests_eq_false_iff⟩
  simp only [ofList_eq_ok_iff, exists_and_left, exists_eq', and_true]
  constructor
  · intro h
    exact ⟨h.source_ne_nil, h.nodup, fun p hp => h.target_ne_nil hp,
      fun p hp hps o ho hos => h.inert hp hps ho hos⟩
  · rintro ⟨hsource, hnodup, htarget, hinert⟩
    have htests : ∀ p ∈ phrases, ¬ p.IsIdentity → ∀ o ∈ phrases, ¬ o.IsIdentity →
        occursIn o.source p.target = false ∧ straddles p.target o.source = false :=
      fun p hp hps o ho hos =>
        tests_eq_false_iff.2 ⟨hsource o ho, htarget p hp, hinert p hp hps o ho hos⟩
    exact ⟨hsource, hnodup, fun p hp hps o ho hos => (htests p hp hps o ho hos).1,
      fun p hp hps o ho hos => (htests p hp hps o ho hos).2⟩

/-- A phrase whose target is the beginning of another source. -/
def completing : List (Phrase Char) :=
  [⟨['x'], ['A']⟩, ⟨['A', 'B'], ['z']⟩]

/-- With a `B` after it, the target `A` spells a source that is replaced, so there is no such
table. -/
theorem ofList_completing_ne_ok :
    OccursAt ['A', 'B'] ([] ++ (['A'] ++ ['B'])) 0 ∧
      ¬ ∃ table, ofList completing = .ok table := by
  have hocc : OccursAt ['A', 'B'] ([] ++ (['A'] ++ ['B'])) 0 := by decide
  refine ⟨hocc, fun h => ?_⟩
  obtain ⟨-, -, -, hinert⟩ := (exists_ofList_eq_ok_iff completing).1.1 h
  exact hinert ⟨['x'], ['A']⟩ (by decide) (by decide) ⟨['A', 'B'], ['z']⟩ (by decide) (by decide)
    [] ['B'] 0 hocc (by decide)

end PhraseTable

end Phrasebook
