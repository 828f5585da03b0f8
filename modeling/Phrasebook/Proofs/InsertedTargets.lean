import Phrasebook.Proofs.Consistent
import Phrasebook.Proofs.Pass
/-!
# Inserted targets stay out of further occurrences

After a pass of a validated table, the sources that the table replaces can still occur in the new
text, but only where an identity has kept them: no such occurrence touches a target that the pass
has put in, each one lies in text that the pass has carried over, and each one meets a place that an
identity has reserved. Without identities, nothing is left to replace.

## Main definitions

* `CarriedOver`: the span lies in text that a pass has carried over.
* `Shielded`: the span meets a place that an identity has reserved.

## Main results

* `Phrase.not_meets_inserted`, `Phrase.Consistent.carriedOver`, `Phrase.Consistent.shielded`: the
  three statements about an occurrence in the new text.
* `PhraseTable.occurrences_in_translation`: all of them, for a validated table.
-/

namespace Phrasebook

open Segment

variable {α : Type}

/-- The span of the new text lies in text that the pass has carried over from the old one: in
neighbouring pieces without an inserted target, which spell the same in both texts. -/
def CarriedOver (pieces : List (Segment α)) (s : Span) : Prop :=
  LiesWithin rendered (fun piece => ¬ piece.IsInserted) pieces s

/-- The span meets a place that an identity has reserved. -/
def Shielded (side : Segment α → List α) (pieces : List (Segment α)) (s : Span) : Prop :=
  ∃ t identity, identity.IsIdentity ∧ (t, .replaced identity) ∈ layout side 0 pieces ∧ s.Meets t

namespace Phrase

variable {phrases : List (Phrase Char)} {text : Text} {e : Phrase Char} {place : Nat}

/-- What a pass inserts is the target of a phrase, with text before it and after it. -/
theorem exists_target_of_isInserted {t : Span} {piece : Segment Char}
    (ht : (t, piece) ∈ layout rendered 0 (segments phrases text)) (hpiece : piece.IsInserted) :
    ∃ p ∈ phrases, ¬ p.IsIdentity ∧ ∃ before after,
      (segments phrases text).flatMap rendered = before ++ (p.target ++ after) ∧
        t = .ofWord before.length p.target := by
  cases piece with
  | untouched u => exact absurd hpiece id
  | replaced p =>
    have hp : p ∈ phrases := mem_of_replaced_mem_segments (mem_of_mem_layout ht)
    exact ⟨p, hp, hpiece, exists_context_of_mem_layout ht⟩

/-- An occurrence of a source that the targets enclose lies inside each one that it touches. -/
theorem inside_inserted (henc : ∀ p ∈ phrases, ¬ p.IsIdentity → Encloses p.target e.source)
    (hocc : OccursAt e.source ((segments phrases text).flatMap rendered) place) {t : Span}
    {piece : Segment Char} (ht : (t, piece) ∈ layout rendered 0 (segments phrases text))
    (hpiece : piece.IsInserted) (hmeets : (Span.ofWord place e.source).Meets t) :
    t.start ≤ place ∧ place + e.source.length ≤ t.stop := by
  obtain ⟨p, hp, hps, before, after, htext, rfl⟩ := exists_target_of_isInserted ht hpiece
  rw [htext] at hocc
  exact henc p hp hps before after place hocc hmeets

/-- An occurrence of a source for which the targets are inert touches none of them. -/
theorem not_meets_inserted (hinert : ∀ p ∈ phrases, ¬ p.IsIdentity → Inert e.source p.target)
    (hocc : OccursAt e.source ((segments phrases text).flatMap rendered) place) {t : Span}
    {piece : Segment Char} (ht : (t, piece) ∈ layout rendered 0 (segments phrases text))
    (hpiece : piece.IsInserted) : ¬ (Span.ofWord place e.source).Meets t := by
  obtain ⟨p, hp, hps, before, after, htext, rfl⟩ := exists_target_of_isInserted ht hpiece
  rw [htext] at hocc
  exact hinert p hp hps before after place hocc

namespace Consistent

/-- An occurrence that touches no inserted target lies in text that was carried over. -/
theorem carriedOver_of_not_meets (h : Consistent phrases) (he : e ∈ phrases)
    (hocc : OccursAt e.source ((segments phrases text).flatMap rendered) place)
    (hclear : ∀ t piece, (t, piece) ∈ layout rendered 0 (segments phrases text) →
      piece.IsInserted → ¬ (Span.ofWord place e.source).Meets t) :
    CarriedOver (segments phrases text) (.ofWord place e.source) := by
  have hne := h.source_ne_nil e he
  refine liesWithin_of_not_meets ?_ ?_ (hocc.add_length_le hne) ?_
  · intro piece hpiece hins
    cases piece with
    | untouched u => exact absurd id hins
    | replaced p => exact h.target_ne_nil (mem_of_replaced_mem_segments hpiece)
  · have hpos : 0 < e.source.length := List.length_pos_of_ne_nil hne
    simp only [Span.ofWord]
    omega
  · intro t piece ht hins
    exact hclear t piece ht (of_not_not hins)

theorem carriedOver (h : Consistent phrases) (he : e ∈ phrases)
    (hinert : ∀ p ∈ phrases, ¬ p.IsIdentity → Inert e.source p.target)
    (hocc : OccursAt e.source ((segments phrases text).flatMap rendered) place) :
    CarriedOver (segments phrases text) (.ofWord place e.source) :=
  h.carriedOver_of_not_meets he hocc fun _ _ ht hpiece => not_meets_inserted hinert hocc ht hpiece

/-- If the targets enclose all sources, what an occurrence in carried over text touches is carried
over too: the two could only be parted by an edge of a target. -/
theorem carriedOver_of_meets (h : Consistent phrases)
    (henc : ∀ p ∈ phrases, ¬ p.IsIdentity → ∀ o ∈ phrases, Encloses p.target o.source) {s : Span}
    (hs : CarriedOver (segments phrases text) s) (he : e ∈ phrases)
    (hocc : OccursAt e.source ((segments phrases text).flatMap rendered) place)
    (hmeets : s.Meets (.ofWord place e.source)) :
    CarriedOver (segments phrases text) (.ofWord place e.source) := by
  refine h.carriedOver_of_not_meets he hocc ?_
  intro t piece ht hins hmeets'
  obtain ⟨hstart, hstop⟩ :=
    inside_inserted (fun p hp hps => henc p hp hps e he) hocc ht hins hmeets'
  exact hs.not_meets ht (not_not_intro hins) (hmeets.mono hstart hstop)

/-- The pass is complete, so an occurrence meets a replaced piece, and not an inserted one. -/
theorem shielded (h : Consistent phrases) (he : e ∈ phrases) (hes : ¬ e.IsIdentity)
    (hocc : OccursAt e.source ((segments phrases text).flatMap rendered) place) :
    Shielded rendered (segments phrases text) (.ofWord place e.source) := by
  obtain ⟨t, p, ht, hmeets⟩ := exists_replaced_of_occursAt (fun _ => rfl)
    (fun p hp => h.target_ne_nil hp) he (h.source_ne_nil e he) hocc
  refine ⟨t, p, ?_, ht, hmeets⟩
  by_contra hps
  exact not_meets_inserted (fun q hq hqs => h.inert hq hqs he hes) hocc ht hps hmeets

end Consistent

end Phrase

namespace PhraseTable

/-- **Occurrences in the new text.** Where a source that is replaced occurs after a pass, it touches
no inserted target, lies in text that was carried over, and meets a place that an identity has
reserved. Without identities, no source is left at all. -/
theorem occurrences_in_translation {phrases : List (Phrase Char)} {table : PhraseTable}
    (h : ofList phrases = .ok table) (text : Text) :
    (∀ e ∈ table.phrases, ¬ e.IsIdentity → ∀ place,
      OccursAt e.source (table.translate text).text place →
        (∀ t piece, (t, piece) ∈ layout rendered 0 (segments table.phrases text) →
          piece.IsInserted → ¬ (Span.ofWord place e.source).Meets t) ∧
        CarriedOver (segments table.phrases text) (.ofWord place e.source) ∧
        Shielded rendered (segments table.phrases text) (.ofWord place e.source)) ∧
    ((∀ e ∈ table.phrases, ¬ e.IsIdentity) →
      ∀ e ∈ table.phrases, occursIn e.source (table.translate text).text = false) := by
  have hcons := consistent_of_ofList h
  constructor
  · intro e he hes place hocc
    have hinert : ∀ p ∈ table.phrases, ¬ p.IsIdentity → Inert e.source p.target :=
      fun p hp hps => hcons.inert hp hps he hes
    refine ⟨?_, ?_, ?_⟩
    · intro t piece ht hpiece
      exact Phrase.not_meets_inserted hinert hocc ht hpiece
    · exact hcons.carriedOver he hinert hocc
    · exact hcons.shielded he hes hocc
  · intro hnone e he
    rw [Bool.eq_false_iff]
    intro hin
    obtain ⟨before, after, htext⟩ := occursIn_iff.1 hin
    have hocc : OccursAt e.source (table.translate text).text before.length := by
      rw [htext, List.append_assoc]
      exact occursAt_append
    obtain ⟨t, p, hp, ht, -⟩ := hcons.shielded he (hnone e he) hocc
    exact hnone p (mem_of_replaced_mem_segments (mem_of_mem_layout ht)) hp

/-- In `ABCD`, which a pass makes of `xBCD`, the `D` is left over and lies in the identity `BCD`. -/
theorem occurrences_in_translation_of_shifting :
    ofList shifting = .ok shiftingTable ∧
      CarriedOver (segments shiftingTable.phrases ['x', 'B', 'C', 'D']) ⟨3, 4⟩ ∧
      Shielded rendered (segments shiftingTable.phrases ['x', 'B', 'C', 'D']) ⟨3, 4⟩ := by
  have htext : (shiftingTable.translate ['x', 'B', 'C', 'D']).text = ['A', 'B', 'C', 'D'] := by
    decide +kernel
  have hocc : OccursAt ['D'] (shiftingTable.translate ['x', 'B', 'C', 'D']).text 3 := by
    rw [htext]
    decide
  obtain ⟨hleft, -⟩ := occurrences_in_translation ofList_shifting ['x', 'B', 'C', 'D']
  obtain ⟨-, hcarried, hshielded⟩ := hleft ⟨['D'], ['z']⟩ (by decide) (by decide) 3 hocc
  exact ⟨ofList_shifting, hcarried, hshielded⟩

end PhraseTable

end Phrasebook
