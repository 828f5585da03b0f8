import Phrasebook.Config.Basic
import Phrasebook.Proofs.MatchOrder
/-!
# The order in which a table is written

Validation reads a list of phrases from the front, so the order of the list decides which of several
faults is reported. It decides nothing else: consistency is about which phrases there are, and
phrases with different sources are sorted in one way only. A table is the same however its phrases
are written down.

## Main results

* `PhraseTable.sorted_eq_of_perm`: sorting forgets the order of a list with different sources.
* `PhraseTable.ofList_eq_ok_iff_of_perm`: so does validating and sorting it.
* `PhraseTable.written_in_any_order`: the same for lists of phrases, overrides and configurations.

## Implementation notes

Two attempts at a table are compared by `Except.toOption`, which forgets the fault: they are equal
if both fail, or if both come to the same phrases in the same order.
-/

namespace Phrasebook

/-- Two attempts agree up to their faults if they come to the same results. -/
theorem toOption_eq_iff {ε α : Type} {x y : Except ε α} :
    x.toOption = y.toOption ↔ ∀ a, x = .ok a ↔ y = .ok a := by
  have hsome (z : Except ε α) (a : α) : z.toOption = some a ↔ z = .ok a := by
    cases z <;> simp [Except.toOption]
  simp only [Option.ext_iff, hsome]

/-- Only phrases with one and the same source precede each other. -/
theorem Phrase.source_eq_of_precedes {p q : Phrase Char} (hpq : p.precedes q = true)
    (hqp : q.precedes p = true) : p.source = q.source := by
  by_contra hne
  have hbefore := comesBefore_of_precedes hpq hne
  have hafter := comesBefore_of_precedes hqp (Ne.symm hne)
  rcases hbefore with hlt | ⟨heq, hlt⟩ <;> rcases hafter with hlt' | ⟨heq', hlt'⟩
  · omega
  · omega
  · omega
  · exact List.lt_asymm hlt hlt'

namespace PhraseTable

variable {phrases others : List (Phrase Char)}

/-- **Phrases with different sources are sorted in one way only.** -/
theorem sorted_eq_of_perm (hnodup : (phrases.map Phrase.source).Nodup)
    (h : phrases.Perm others) : sorted phrases = sorted others := by
  have hperm : (sorted phrases).phrases.Perm (sorted others).phrases :=
    (perm_sorted phrases).trans (h.trans (perm_sorted others).symm)
  refine congrArg PhraseTable.mk (hperm.eq_of_pairwise ?_ (pairwise_precedes_sorted phrases)
    (pairwise_precedes_sorted others))
  intro p q hp hq hpq hqp
  have hp' : p ∈ phrases := (perm_sorted phrases).mem_iff.1 hp
  have hq' : q ∈ phrases := h.mem_iff.2 ((perm_sorted others).mem_iff.1 hq)
  exact List.inj_on_of_nodup_map hnodup hp' hq' (Phrase.source_eq_of_precedes hpq hqp)

theorem ofList_of_perm {table : PhraseTable} (hlist : ofList phrases = .ok table)
    (h : phrases.Perm others) : ofList others = .ok table := by
  obtain ⟨hcons, rfl⟩ := ofList_eq_ok_iff.1 hlist
  exact ofList_eq_ok_iff.2 ⟨hcons.perm h, (sorted_eq_of_perm hcons.nodup h).symm⟩

/-- **Validating and sorting a list forgets its order.** -/
theorem ofList_eq_ok_iff_of_perm (h : phrases.Perm others) (table : PhraseTable) :
    ofList phrases = .ok table ↔ ofList others = .ok table :=
  ⟨fun hlist => ofList_of_perm hlist h, fun hlist => ofList_of_perm hlist h.symm⟩

/-- The overrides are looked at only through the table that they make. -/
theorem override_eq_ok_iff_of_perm (h : phrases.Perm others) (base table : PhraseTable) :
    base.override phrases = .ok table ↔ base.override others = .ok table := by
  simp only [override_eq_ok_iff, ofList_eq_ok_iff_of_perm h]

/-- A configuration hands its phrases on to one of the two. -/
theorem phraseTable_eq_ok_iff_of_perm (h : phrases.Perm others) (config : Config)
    (table : PhraseTable) :
    { config with phrases := phrases }.phraseTable = .ok table ↔
      { config with phrases := others }.phraseTable = .ok table := by
  simp only [Config.phraseTable]
  split
  · exact override_eq_ok_iff_of_perm h _ table
  · exact ofList_eq_ok_iff_of_perm h table

/-- **A table can be written in any order.** A list of phrases and any rearrangement of it both
fail, or both make the same table, which translates every text alike. So it is if they are put over
a table, and if they are the phrases of a configuration. -/
theorem written_in_any_order (h : phrases.Perm others) :
    (ofList phrases).toOption = (ofList others).toOption ∧
      (∀ base : PhraseTable,
        (base.override phrases).toOption = (base.override others).toOption) ∧
      (∀ config : Config,
        { config with phrases := phrases }.phraseTable.toOption =
          { config with phrases := others }.phraseTable.toOption) ∧
      ∀ table other, ofList phrases = .ok table → ofList others = .ok other →
        ∀ text, table.translate text = other.translate text := by
  refine ⟨?_, fun base => ?_, fun config => ?_, ?_⟩
  · exact toOption_eq_iff.2 (ofList_eq_ok_iff_of_perm h)
  · exact toOption_eq_iff.2 (override_eq_ok_iff_of_perm h base)
  · exact toOption_eq_iff.2 (phraseTable_eq_ok_iff_of_perm h config)
  · intro table other htable hother text
    rw [ofList_of_perm htable h] at hother
    rw [Except.ok.inj hother]

/-- The four phrases of the table in which identities overlap, written from the last to the first,
make the same table, although none of them stays in its place. -/
theorem written_in_any_order_shifting :
    shifting.reverse.Perm shifting ∧ (ofList shifting.reverse).toOption = some shiftingTable := by
  have hperm : shifting.reverse.Perm shifting := List.reverse_perm shifting
  obtain ⟨hlist, -⟩ := written_in_any_order hperm
  rw [ofList_shifting] at hlist
  exact ⟨hperm, hlist⟩

/-- The fault that is reported does depend on the order. -/
example : ofList [⟨[], ['a']⟩, ⟨[], ['b']⟩] = .error (.emptyPhrase ['a']) ∧
    ofList [⟨[], ['b']⟩, ⟨[], ['a']⟩] = .error (.emptyPhrase ['b']) :=
  ⟨rfl, rfl⟩

end PhraseTable

end Phrasebook
