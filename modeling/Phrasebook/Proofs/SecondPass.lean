import Phrasebook.Proofs.Origin
/-!
# When a second pass changes nothing

Validation keeps inserted targets from being replaced by a second pass. It does not keep identities
where they are: an inserted target can complete an identity that comes first in match order, and the
place that this one reserves may overlap the place of another, which had protected a source. So a
second pass changes nothing exactly if whatever an identity has protected in the first pass is
protected by one in the second. If validation asked of identities what it asks of the other sources,
that would hold for every text.

## Main definitions

* `Phrase.SparesIdentities`: targets are inert for identities too.

## Main results

* `PhraseTable.second_pass_of_shifting`: a validated table and a text that a second pass changes.
* `PhraseTable.second_pass_eq_iff`: the exact condition, and the one on the table.
-/

namespace Phrasebook

open Segment

namespace Phrase

variable {phrases : List (Phrase Char)} {text : Text}

/-- No target that a pass inserts contains the source of an identity, or can form one together with
the text around it. Validation asks this of the other sources only. -/
def SparesIdentities (phrases : List (Phrase Char)) : Prop :=
  ∀ p ∈ phrases, ¬ p.IsIdentity → ∀ identity ∈ phrases, identity.IsIdentity →
    occursIn identity.source p.target = false ∧ straddles p.target identity.source = false

instance (phrases : List (Phrase Char)) : Decidable (SparesIdentities phrases) :=
  inferInstanceAs (Decidable (∀ p ∈ phrases, _ → ∀ identity ∈ phrases, _ → _ ∧ _))

-- without the first identity, the target of `x` can form none
example : ¬ SparesIdentities PhraseTable.shifting ∧
    SparesIdentities PhraseTable.shifting.tail := by
  decide +kernel

namespace Consistent

/-- A pass is complete, so if it substitutes nothing, identities protect all sources. -/
theorem shielded_of_substitutions_eq_zero (h : Consistent phrases)
    (hzero : (translate phrases text).substitutions = 0) {e : Phrase Char} (he : e ∈ phrases)
    {place : Nat} (hocc : OccursAt e.source text place) :
    Shielded given (segments phrases text) (.ofWord place e.source) := by
  have hocc' : OccursAt e.source ((segments phrases text).flatMap given) place := by
    rwa [flatMap_given_segments]
  obtain ⟨t, p, ht, hmeets⟩ := exists_replaced_of_occursAt (fun _ => rfl)
    (fun p hp => h.source_ne_nil p hp) he (h.source_ne_nil e he) hocc'
  have hp := substitutions_eq_zero_iff.1 hzero _ (mem_of_mem_layout ht)
  exact ⟨t, p, of_not_not hp, ht, hmeets⟩

/-- A second pass substitutes nothing if identities protect what they have protected in the first:
the place of a substitution would be shared with an identity of the same pass. -/
theorem substitutions_eq_zero_of_shielded (h : Consistent phrases)
    (hshield : ∀ e ∈ phrases, ¬ e.IsIdentity → ∀ place,
      OccursAt e.source (translate phrases text).text place →
        Shielded rendered (segments phrases text) (.ofWord place e.source) →
          Shielded given (segments phrases (translate phrases text).text)
            (.ofWord place e.source)) :
    (translate phrases (translate phrases text).text).substitutions = 0 := by
  rw [substitutions_eq_zero_iff]
  intro piece hpiece hins
  cases piece with
  | untouched u => exact hins
  | replaced e =>
    have he := mem_of_replaced_mem_segments hpiece
    obtain ⟨t, ht⟩ := exists_mem_layout hpiece 0
    have hocc := occursAt_of_mem_layout ht
    rw [flatMap_given_segments] at hocc
    obtain ⟨u, identity, hid, hu, hmeets⟩ :=
      hshield e he hins t.start hocc (h.shielded he hins hocc)
    have hspan : t = .ofWord t.start e.source := eq_ofWord_of_mem_layout ht
    rw [← hspan] at hmeets
    have heq := (Prod.mk.inj (eq_of_meets_of_mem_layout ht hu hmeets)).2
    rw [replaced.inj heq] at hins
    exact hins hid

/-- If targets enclose all sources, those of identities included, the second pass substitutes
nothing. What it would substitute lies in carried over text, where the first pass has chosen the
same and substituted it. -/
theorem substitutions_eq_zero_of_encloses (h : Consistent phrases)
    (henc : ∀ p ∈ phrases, ¬ p.IsIdentity → ∀ o ∈ phrases, Encloses p.target o.source) :
    (translate phrases (translate phrases text).text).substitutions = 0 := by
  rw [substitutions_eq_zero_iff]
  intro piece hpiece hins
  cases piece with
  | untouched u => exact hins
  | replaced e =>
    obtain ⟨place, hmark⟩ := (map_phrase_marks 0 _ e).2 hpiece
    have hchosen := (perm_marks_select h.source_ne_nil _).mem_iff.1 hmark
    have hmem := ((mem_select_occurrences_iff h.nodup_phrases).1 hchosen).1
    obtain ⟨he, -, hocc⟩ := mem_occurrences.1 hmem
    have hcarried := h.carriedOver he (fun p hp hps => h.inert hp hps he hins) hocc
    have htraced := (mem_select_iff_traced h henc hmem hcarried).1 hchosen
    exact hins (isIdentity_of_traced_mem_marks hcarried (h.source_ne_nil e he)
      ((perm_marks_select h.source_ne_nil text).mem_iff.2 htraced))

/-- Inert targets enclose whatever there is. -/
theorem substitutions_eq_zero_of_sparesIdentities (h : Consistent phrases)
    (hspare : SparesIdentities phrases) :
    (translate phrases (translate phrases text).text).substitutions = 0 := by
  refine h.substitutions_eq_zero_of_encloses ?_
  intro p hp hps o ho
  by_cases hos : o.IsIdentity
  · obtain ⟨hoccursIn, hstraddles⟩ := hspare p hp hps o ho hos
    exact (inert_of_straddles_eq_false hoccursIn hstraddles).encloses
  · exact (h.inert hp hps ho hos).encloses

end Consistent

end Phrase

/-! ### A table whose second pass substitutes -/

namespace PhraseTable

/-- The phrases pass validation, and the second pass over `xBCD` substitutes once more. -/
theorem second_pass_of_shifting :
    ofList shifting = .ok shiftingTable ∧
      (shiftingTable.translate ['x', 'B', 'C', 'D']).text = ['A', 'B', 'C', 'D'] ∧
      (shiftingTable.translate ['A', 'B', 'C', 'D']).text = ['A', 'B', 'C', 'z'] ∧
      (shiftingTable.translate ['A', 'B', 'C', 'D']).substitutions = 1 := by
  refine ⟨ofList_shifting, ?_⟩
  decide +kernel

/-! ### The exact condition -/

/-- **When a second pass changes nothing.** Exactly if each occurrence of a replaced source in the
text of the first pass that meets a place reserved by an identity in that pass also meets one in the
second. That holds for every text if no target contains an identity or can form one with the text
around it; in particular, if the table has no identities. -/
theorem second_pass_eq_iff {phrases : List (Phrase Char)} {table : PhraseTable}
    (h : ofList phrases = .ok table) (text : Text) :
    let once := (table.translate text).text
    let settled := (table.translate once).text = once ∧ (table.translate once).substitutions = 0
    (settled ↔ ∀ e ∈ table.phrases, ¬ e.IsIdentity → ∀ place, OccursAt e.source once place →
      Shielded rendered (segments table.phrases text) (.ofWord place e.source) →
        Shielded given (segments table.phrases once) (.ofWord place e.source)) ∧
    (Phrase.SparesIdentities table.phrases → settled) := by
  intro once settled
  have hcons := consistent_of_ofList h
  have hsettled : (table.translate once).substitutions = 0 → settled := fun hzero =>
    ⟨translate_text_of_substitutions_eq_zero hzero, hzero⟩
  refine ⟨⟨?_, ?_⟩, ?_⟩
  · rintro ⟨-, hzero⟩ e he - place hocc -
    exact hcons.shielded_of_substitutions_eq_zero hzero he hocc
  · intro hshield
    exact hsettled (hcons.substitutions_eq_zero_of_shielded hshield)
  · intro hspare
    exact hsettled (hcons.substitutions_eq_zero_of_sparesIdentities hspare)

/-- The condition at work where the second pass does change nothing: `BCD` keeps its place, and so
the `D` in it stays protected. -/
theorem second_pass_eq_iff_of_shifting :
    ofList shifting = .ok shiftingTable ∧
      Shielded given (segments shiftingTable.phrases ['B', 'C', 'D', 'A']) ⟨2, 3⟩ := by
  have hset : (shiftingTable.translate ['B', 'C', 'D', 'A']).text = ['B', 'C', 'D', 'A'] ∧
      (shiftingTable.translate ['B', 'C', 'D', 'A']).substitutions = 0 := by
    decide +kernel
  have honce : (shiftingTable.translate ['B', 'C', 'D', 'x']).text = ['B', 'C', 'D', 'A'] := by
    decide +kernel
  have hiff := (second_pass_eq_iff ofList_shifting ['B', 'C', 'D', 'x']).1
  rw [honce] at hiff
  refine ⟨ofList_shifting, hiff.1 hset ⟨['D'], ['z']⟩ (by decide) (by decide) 2 (by decide) ?_⟩
  exact ⟨⟨0, 3⟩, ⟨['B', 'C', 'D'], ['B', 'C', 'D']⟩, rfl, by decide +kernel, by decide⟩

end PhraseTable

end Phrasebook
