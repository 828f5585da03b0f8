import Phrasebook.Proofs.Overlay
import Phrasebook.Proofs.Respelling
/-!
# Phrases that a text does not have

A pass chooses from the occurrences of its phrases, and the phrases that do not occur have none to
offer. They can be put between the others or taken away from them, and every choice stays. So a
table and the same table with overrides translate a text alike if no source of an override occurs in
it: what the two tables have in common stands in one order in both, and the rest does not occur.

## Main results

* `occurrences_filter_of_absent`: phrases that do not occur can be left out.
* `translate_congr_of_occurrences`: a rendition depends on the occurrences alone.
* `PhraseTable.filter_phrases_of_override`: away from the sources of the overrides, overriding a
  table moves no phrase.
* `PhraseTable.translate_of_override_of_absent`: absent overrides have no influence.
-/

namespace Phrasebook

variable {α : Type} [DecidableEq α]

theorem occurrencesOf_of_absent {phrase : Phrase α} {text : List α}
    (h : ¬ phrase.source <:+: text) : occurrencesOf text phrase = [] := by
  have hnone : places phrase.source text = [] := by
    refine List.eq_nil_iff_forall_not_mem.2 fun place hplace => h ?_
    obtain ⟨-, hocc⟩ := mem_places.1 hplace
    exact hocc.isInfix.trans (List.drop_suffix place text).isInfix
  rw [occurrencesOf, hnone, List.map_nil]

/-- **Phrases that do not occur can be left out.** -/
theorem occurrences_filter_of_absent {phrases : List (Phrase α)} {keep : Phrase α → Bool}
    {text : List α} (h : ∀ p ∈ phrases, keep p = false → ¬ p.source <:+: text) :
    occurrences (phrases.filter keep) text = occurrences phrases text := by
  induction phrases with
  | nil => rfl
  | cons p phrases ih =>
    have hrest := ih fun q hq => h q (List.mem_cons_of_mem _ hq)
    simp only [occurrences, List.flatMap_cons] at hrest ⊢
    cases hp : keep p with
    | true => rw [List.filter_cons_of_pos hp, List.flatMap_cons, hrest]
    | false =>
      rw [List.filter_cons_of_neg (by simp [hp]), hrest,
        occurrencesOf_of_absent (h p List.mem_cons_self hp), List.nil_append]

/-- **A rendition depends on the occurrences alone.** Two lists of phrases with the same occurrences
in a text, in the same order, make the same of it. -/
theorem translate_congr_of_occurrences {phrases others : List (Phrase α)} (hnodup : phrases.Nodup)
    (hne : ∀ p ∈ phrases, p.source ≠ []) (hnodup' : others.Nodup)
    (hne' : ∀ p ∈ others, p.source ≠ []) {text : List α}
    (h : occurrences phrases text = occurrences others text) :
    translate phrases text = translate others text := by
  rw [translate_eq_of_select hnodup hne, translate_eq_of_select hnodup' hne', h]

namespace PhraseTable

variable {base table : PhraseTable} {overrides : List (Phrase Char)}

/-- **Away from the sources of the overrides, overriding a table moves no phrase**: the phrases that
pass a test which every override fails, and with it every phrase that shares a source with one, are
the same in both tables and stand in the same order. -/
theorem filter_phrases_of_override (h : base.Reachable)
    (htable : base.override overrides = .ok table) (test : Text → Bool)
    (htest : ∀ o ∈ overrides, test o.source = false) :
    table.phrases.filter (fun p => test p.source) = base.phrases.filter fun p => test p.source := by
  have hoverlay : (Phrase.overlay base.phrases overrides).filter (fun p => test p.source) =
      base.phrases.filter fun p => test p.source := by
    have hnone : overrides.filter (fun p => test p.source) = [] :=
      List.filter_eq_nil_iff.2 fun o ho => by simp [htest o ho]
    rw [Phrase.overlay, List.filter_append, hnone, List.append_nil, Phrase.uncovered_eq_filter,
      List.filter_filter]
    refine List.filter_congr fun p _ => Bool.and_eq_left_iff_imp.2 fun hp => decide_eq_true ?_
    intro hmem
    obtain ⟨o, ho, hsource⟩ := List.mem_map.1 hmem
    rw [← hsource, htest o ho] at hp
    cases hp
  have hperm := (perm_overlay_of_override htable).filter fun p => test p.source
  rw [hoverlay] at hperm
  have hnodup := (nodup_of_override htable).sublist
    ((List.filter_sublist (p := fun p => test p.source)).map Phrase.source)
  -- both lists are parts of sorted ones, and there is one way only to sort them
  have hsorted := sorted_eq_of_perm hnodup hperm
  rw [sorted, sorted,
    List.mergeSort_of_pairwise ((Reachable.override h htable).pairwise_precedes.filter _),
    List.mergeSort_of_pairwise (h.pairwise_precedes.filter _)] at hsorted
  exact PhraseTable.mk.inj hsorted

/-- **Absent overrides have no influence.** A text in which no source of the overrides occurs is
translated with them as without them: the new text is the same, and so are the substitutions and the
phrases found. -/
theorem translate_of_override_of_absent (h : base.Reachable)
    (htable : base.override overrides = .ok table) {text : Text}
    (habsent : ∀ o ∈ overrides, ¬ o.source <:+: text) :
    table.translate text = base.translate text := by
  have hreachable := Reachable.override h htable
  have hfilter := filter_phrases_of_override h htable (fun source => occursIn source text)
    fun o ho => Bool.eq_false_iff.2 fun hin => habsent o ho (occursIn_iff_isInfix.1 hin)
  have hout (phrases : List (Phrase Char)) :
      occurrences (phrases.filter fun p => occursIn p.source text) text =
        occurrences phrases text := by
    refine occurrences_filter_of_absent fun p _ hp hin => ?_
    rw [occursIn_iff_isInfix.2 hin] at hp
    cases hp
  refine translate_congr_of_occurrences hreachable.consistent.nodup_phrases
    hreachable.consistent.source_ne_nil h.consistent.nodup_phrases h.consistent.source_ne_nil ?_
  rw [← hout table.phrases, hfilter, hout base.phrases]

/-- The table of overlapping identities, with another target for `x` and a new phrase that stands
between the others in match order. In `BCDABCD` neither of the two occurs, and either table replaces
the one `D` that the identities leave open. -/
theorem translate_of_override_of_absent_shifting :
    ∃ table, shiftingTable.override [⟨['x'], ['Q']⟩, ⟨['Y', 'Y'], ['q']⟩] = .ok table ∧
      (table.phrases.map Phrase.source)[2]? = some ['Y', 'Y'] ∧
        let text := ['B', 'C', 'D', 'A', 'B', 'C', 'D']
        table.translate text = shiftingTable.translate text ∧
          shiftingTable.translate text = ⟨['B', 'C', 'D', 'A', 'B', 'C', 'z'], 1, 3⟩ := by
  have htable : shiftingTable.override [⟨['x'], ['Q']⟩, ⟨['Y', 'Y'], ['q']⟩] =
      .ok ⟨[⟨['A', 'B', 'C'], ['A', 'B', 'C']⟩, ⟨['B', 'C', 'D'], ['B', 'C', 'D']⟩,
        ⟨['Y', 'Y'], ['q']⟩, ⟨['D'], ['z']⟩, ⟨['x'], ['Q']⟩]⟩ :=
    override_eq_ok_iff_ofList_overlay.2 (ofList_of_perm
      (ofList_eq_ok_of_pairwise (by decide +kernel) (by decide +kernel)) (by decide +kernel))
  have habsent : ∀ o ∈ ([⟨['x'], ['Q']⟩, ⟨['Y', 'Y'], ['q']⟩] : List (Phrase Char)),
      ¬ o.source <:+: ['B', 'C', 'D', 'A', 'B', 'C', 'D'] := by
    decide +kernel
  exact ⟨_, htable, rfl,
    translate_of_override_of_absent (.ofList ofList_shifting) htable habsent, by decide +kernel⟩

end PhraseTable

end Phrasebook
