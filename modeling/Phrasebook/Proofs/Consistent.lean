import Mathlib.Data.List.Nodup
import Phrasebook.Phrase.Table
import Phrasebook.Proofs.Inert
/-!
# What validation establishes

A list of phrases passes validation exactly when it is consistent: its sources are not empty and
pairwise different, and no target of a substituting phrase can share a symbol with the source of
one. Consistency does not depend on the order of the phrases, so a table inherits it from the list
that it was made of.

## Main definitions

* `Phrase.Consistent`: the condition.

## Main results

* `fault?_eq_none_iff`: validation finds no fault exactly in the consistent lists.
* `Phrase.Consistent.inert`: in a consistent list, targets are inert for the sources that are
  replaced.
* `PhraseTable.consistent_of_ofList`: the phrases of a validated table are consistent.
-/

namespace Phrasebook

namespace Phrase

/-- The phrases can share a table. -/
structure Consistent (phrases : List (Phrase Char)) : Prop where
  /-- No source is empty. -/
  source_ne_nil : ∀ p ∈ phrases, p.source ≠ []
  /-- No source occurs twice. -/
  nodup : (phrases.map source).Nodup
  /-- No source that is replaced is inside the target of a phrase that replaces. -/
  not_occursIn : ∀ p ∈ phrases, ¬ p.IsIdentity → ∀ o ∈ phrases, ¬ o.IsIdentity →
    occursIn o.source p.target = false
  /-- Nor can neighbours of that target form such a source together with a part of it. -/
  not_straddles : ∀ p ∈ phrases, ¬ p.IsIdentity → ∀ o ∈ phrases, ¬ o.IsIdentity →
    straddles p.target o.source = false

/-! ### Validation decides consistency -/

theorem sourceFault?_eq_none_iff {phrases : List (Phrase Char)} {seen : List Text} :
    sourceFault? seen phrases = none ↔
      (∀ p ∈ phrases, p.source ≠ []) ∧ (phrases.map source).Nodup ∧
        ∀ p ∈ phrases, p.source ∉ seen := by
  induction phrases generalizing seen with
  | nil => simp [sourceFault?]
  | cons p phrases ih =>
    rw [sourceFault?]
    split
    · simp [*]
    · split
      · simp [*]
      · rename_i hne hseen
        rw [ih]
        simp only [List.map_cons, List.nodup_cons, List.mem_map, List.mem_cons, forall_eq_or_imp,
          not_or, not_exists, not_and]
        -- that a later source differs from that of `p` stands once among the seen, once among the
        -- repeated sources
        constructor
        · rintro ⟨h₁, h₂, h₃⟩
          exact ⟨⟨hne, h₁⟩, ⟨fun q hq => (h₃ q hq).1, h₂⟩, hseen, fun q hq => (h₃ q hq).2⟩
        · rintro ⟨⟨-, h₁⟩, ⟨h₂, h₃⟩, -, h₄⟩
          exact ⟨h₁, h₃, fun q hq => ⟨h₂ q hq, h₄ q hq⟩⟩

theorem targetFault?_eq_none_iff {others : List (Phrase Char)} {p : Phrase Char} :
    targetFault? others p = none ↔
      ∀ o ∈ others, occursIn o.source p.target = false ∧ straddles p.target o.source = false := by
  rw [targetFault?]
  split
  · rename_i o ho
    have hin := List.find?_some ho
    have hmem := List.mem_of_find?_eq_some ho
    refine ⟨fun h => (Option.some_ne_none _ h).elim, fun h => ?_⟩
    rw [(h o hmem).1] at hin
    cases hin
  · rename_i ho
    rw [Option.map_eq_none_iff, List.find?_eq_none]
    rw [List.find?_eq_none] at ho
    simp only [Bool.not_eq_true] at *
    exact ⟨fun h o hmem => ⟨ho o hmem, h o hmem⟩, fun h o hmem => (h o hmem).2⟩

theorem mem_substituting {phrases : List (Phrase Char)} {p : Phrase Char} :
    p ∈ substituting phrases ↔ p ∈ phrases ∧ ¬ p.IsIdentity := by
  simp [substituting]

/-- **Validation finds no fault exactly in the consistent lists.** -/
theorem fault?_eq_none_iff {phrases : List (Phrase Char)} :
    fault? phrases = none ↔ Consistent phrases := by
  rw [fault?, Option.orElse_eq_orElse, Option.orElse_eq_or, Option.or_eq_none_iff,
    sourceFault?_eq_none_iff, List.findSome?_eq_none_iff]
  simp only [targetFault?_eq_none_iff, mem_substituting, and_imp]
  constructor
  · rintro ⟨⟨hne, hnodup, -⟩, htarget⟩
    exact ⟨hne, hnodup, fun p hp hps o ho hos => (htarget p hp hps o ho hos).1,
      fun p hp hps o ho hos => (htarget p hp hps o ho hos).2⟩
  · intro h
    exact ⟨⟨h.source_ne_nil, h.nodup, fun _ _ => List.not_mem_nil⟩,
      fun p hp hps o ho hos => ⟨h.not_occursIn p hp hps o ho hos,
        h.not_straddles p hp hps o ho hos⟩⟩

/-! ### What follows from consistency -/

namespace Consistent

variable {phrases : List (Phrase Char)}

/-- The order of the phrases does not matter. -/
theorem perm (h : Consistent phrases) {others : List (Phrase Char)} (hperm : phrases.Perm others) :
    Consistent others := by
  have hmem : ∀ p, p ∈ others → p ∈ phrases := fun p hp => hperm.mem_iff.2 hp
  exact ⟨fun p hp => h.source_ne_nil p (hmem p hp), (hperm.map source).nodup_iff.1 h.nodup,
    fun p hp hps o ho hos => h.not_occursIn p (hmem p hp) hps o (hmem o ho) hos,
    fun p hp hps o ho hos => h.not_straddles p (hmem p hp) hps o (hmem o ho) hos⟩

/-- No phrase is in the list twice. -/
theorem nodup_phrases (h : Consistent phrases) : phrases.Nodup :=
  h.nodup.of_map source

/-- Targets are inert for the sources that are replaced. -/
theorem inert (h : Consistent phrases) {p o : Phrase Char} (hp : p ∈ phrases)
    (hps : ¬ p.IsIdentity) (ho : o ∈ phrases) (hos : ¬ o.IsIdentity) : Inert o.source p.target :=
  inert_of_straddles_eq_false (h.not_occursIn p hp hps o ho hos) (h.not_straddles p hp hps o ho hos)

/-- No target is empty: that of an identity is its source, and any other is tested against the
source of its own phrase. -/
theorem target_ne_nil (h : Consistent phrases) {p : Phrase Char} (hp : p ∈ phrases) :
    p.target ≠ [] := by
  by_cases hps : p.IsIdentity
  · rw [← show p.source = p.target from hps]
    exact h.source_ne_nil p hp
  · exact ne_nil_of_straddles_eq_false (h.not_straddles p hp hps p hp hps)

end Consistent

end Phrase

namespace PhraseTable

theorem perm_sorted (phrases : List (Phrase Char)) : (sorted phrases).phrases.Perm phrases :=
  List.mergeSort_perm phrases Phrase.precedes

theorem ofList_eq_ok_iff {phrases : List (Phrase Char)} {table : PhraseTable} :
    ofList phrases = .ok table ↔ Phrase.Consistent phrases ∧ sorted phrases = table := by
  rw [ofList, ← Phrase.fault?_eq_none_iff]
  split <;> simp [*]

theorem ofList_eq_error_iff {phrases : List (Phrase Char)} {fault : TableError} :
    ofList phrases = .error fault ↔ Phrase.fault? phrases = some fault := by
  rw [ofList]
  split <;> simp [*]

/-- A list that is valid and in match order already is a table as it stands. -/
theorem ofList_eq_ok_of_pairwise {phrases : List (Phrase Char)}
    (hfault : Phrase.fault? phrases = none)
    (hsorted : phrases.Pairwise fun p q => p.precedes q = true) :
    ofList phrases = .ok ⟨phrases⟩ := by
  refine ofList_eq_ok_iff.2 ⟨Phrase.fault?_eq_none_iff.1 hfault, ?_⟩
  rw [sorted, List.mergeSort_of_pairwise hsorted]

/-- A table that was made of a list has consistent phrases. -/
theorem consistent_of_ofList {phrases : List (Phrase Char)} {table : PhraseTable}
    (h : ofList phrases = .ok table) : Phrase.Consistent table.phrases := by
  obtain ⟨hcons, rfl⟩ := ofList_eq_ok_iff.1 h
  exact hcons.perm (perm_sorted phrases).symm

/-! ### A table with overlapping identities

Validation says nothing about identities. In this table the target `A` completes the identity `ABC`,
which then takes the place of `BCD`, and so sets `D` free. -/

/-- Two overlapping identities, a phrase whose source the second protects, and one whose target
completes the first. -/
def shifting : List (Phrase Char) :=
  [⟨['A', 'B', 'C'], ['A', 'B', 'C']⟩, ⟨['B', 'C', 'D'], ['B', 'C', 'D']⟩, ⟨['D'], ['z']⟩,
    ⟨['x'], ['A']⟩]

/-- The table of these phrases, which are in match order as they stand. -/
def shiftingTable : PhraseTable :=
  ⟨shifting⟩

theorem ofList_shifting : ofList shifting = .ok shiftingTable :=
  ofList_eq_ok_of_pairwise (by decide +kernel) (by decide +kernel)

end PhraseTable

end Phrasebook
