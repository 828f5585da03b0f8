import Phrasebook.Proofs.Lists
import Phrasebook.Proofs.Octets
import Phrasebook.Proofs.Reachable
/-!
# The form of a reachable table

The match order is decided by the octets of the sources alone, so different sources are never tied.
Every way to come by a table ends in sorting a consistent list. Hence the phrases of a reachable
table stand in one strict order, and the table is what its own phrases make when they are validated
and sorted again.

## Main definitions

* `Phrase.ComesBefore`: the match order as a strict order, of sources that differ.

## Main results

* `PhraseTable.find?_eq_some_iff`: a look-up finds the phrases of the table.
* `PhraseTable.Reachable.sorted_phrases`: sorting a reachable table again changes nothing.
* `PhraseTable.Reachable.representation`: all that can be relied on in a reachable table.
-/

namespace Phrasebook

namespace Phrase

/-- The source of `p` has more octets than that of `q`, or as many and its octets come first. -/
def ComesBefore (p q : Phrase Char) : Prop :=
  (Utf8.encode q.source).length < (Utf8.encode p.source).length ∨
    (Utf8.encode p.source).length = (Utf8.encode q.source).length ∧
      Utf8.encode p.source < Utf8.encode q.source

/-! ### Sorting by the match order -/

theorem precedes_iff {p q : Phrase Char} :
    p.precedes q = true ↔
      (Utf8.encode q.source).length < (Utf8.encode p.source).length ∨
        (Utf8.encode p.source).length = (Utf8.encode q.source).length ∧
          Utf8.encode p.source ≤ Utf8.encode q.source := by
  simp only [precedes, Bool.or_eq_true, Bool.and_eq_true, decide_eq_true_eq, beq_iff_eq]

theorem precedes_trans {p q r : Phrase Char} (hpq : p.precedes q = true)
    (hqr : q.precedes r = true) : p.precedes r = true := by
  rw [precedes_iff] at *
  rcases hpq with hlt | ⟨heq, hle⟩ <;> rcases hqr with hlt' | ⟨heq', hle'⟩
  · exact .inl (hlt'.trans hlt)
  · exact .inl (heq' ▸ hlt)
  · exact .inl (heq ▸ hlt')
  · exact .inr ⟨heq.trans heq', List.le_trans hle hle'⟩

theorem precedes_total (p q : Phrase Char) : p.precedes q = true ∨ q.precedes p = true := by
  rw [precedes_iff, precedes_iff]
  rcases Nat.lt_trichotomy (Utf8.encode p.source).length (Utf8.encode q.source).length with
    hlt | heq | hlt
  · exact .inr (.inl hlt)
  · exact (List.le_total (Utf8.encode p.source) (Utf8.encode q.source)).imp
      (fun hle => .inr ⟨heq, hle⟩) fun hle => .inr ⟨heq.symm, hle⟩
  · exact .inl (.inl hlt)

/-- Phrases with different sources are not tied. -/
theorem comesBefore_of_precedes {p q : Phrase Char} (h : p.precedes q = true)
    (hne : p.source ≠ q.source) : p.ComesBefore q := by
  rcases precedes_iff.1 h with hlt | ⟨heq, hle⟩
  · exact .inl hlt
  · rcases List.le_iff_lt_or_eq.1 hle with hlt | hsame
    · exact .inr ⟨heq, hlt⟩
    · exact absurd (Utf8.encode_injective hsame) hne

end Phrase

namespace PhraseTable

theorem pairwise_precedes_sorted (phrases : List (Phrase Char)) :
    (sorted phrases).phrases.Pairwise fun p q => p.precedes q = true := by
  refine List.pairwise_mergeSort ?_ ?_ phrases
  · intro p q r hpq hqr
    exact Phrase.precedes_trans hpq hqr
  · intro p q
    rw [Bool.or_eq_true]
    exact Phrase.precedes_total p q

/-- A look-up finds the phrases of the table: no two of them share a source. -/
theorem find?_eq_some_iff {table : PhraseTable} (h : (table.phrases.map Phrase.source).Nodup)
    {source target : Text} :
    table.find? source = some target ↔ ⟨source, target⟩ ∈ table.phrases := by
  rw [find?, Option.map_eq_some_iff]
  simp only [find?_key_eq_some_iff h]
  constructor
  · rintro ⟨p, ⟨hp, rfl⟩, rfl⟩
    exact hp
  · intro hmem
    exact ⟨_, ⟨hmem, rfl⟩, rfl⟩

namespace Reachable

variable {table : PhraseTable}

/-- Every reachable table comes out of a sort. -/
theorem exists_eq_sorted (h : Reachable table) : ∃ phrases, table = sorted phrases := by
  cases h with
  | ofList h => exact ⟨_, (ofList_eq_ok_iff.1 h).2.symm⟩
  | shipped table => exact ⟨_, rfl⟩
  | override _ h =>
    obtain ⟨top, -, h⟩ := override_eq_ok_iff.1 h
    exact ⟨_, (ofList_eq_ok_iff.1 h).2.symm⟩

theorem pairwise_precedes (h : Reachable table) :
    table.phrases.Pairwise fun p q => p.precedes q = true := by
  obtain ⟨phrases, rfl⟩ := h.exists_eq_sorted
  exact pairwise_precedes_sorted phrases

/-- Sorting a reachable table again changes nothing. -/
theorem sorted_phrases (h : Reachable table) : sorted table.phrases = table := by
  rw [sorted, List.mergeSort_of_pairwise h.pairwise_precedes]

/-- No two phrases of a reachable table are tied in match order. -/
theorem pairwise_comesBefore (h : Reachable table) :
    table.phrases.Pairwise Phrase.ComesBefore := by
  have hdistinct := List.pairwise_map.1 h.consistent.nodup
  exact (h.pairwise_precedes.and hdistinct).imp fun hpq =>
    Phrase.comesBefore_of_precedes hpq.1 hpq.2

/-- **What can be relied on in a reachable table.** Its sources are not empty and pairwise
different; its phrases are strictly in match order; no target of a substituting phrase is empty,
contains the source of one or straddles one; a look-up finds its phrases and nothing else; and its
phrases pass validation and make the table again. -/
theorem representation (h : Reachable table) :
    (∀ p ∈ table.phrases, p.source ≠ []) ∧ (table.phrases.map Phrase.source).Nodup ∧
      table.phrases.Pairwise Phrase.ComesBefore ∧
      (∀ p ∈ table.phrases, ¬ p.IsIdentity → p.target ≠ [] ∧
        ∀ o ∈ table.phrases, ¬ o.IsIdentity →
          occursIn o.source p.target = false ∧ straddles p.target o.source = false) ∧
      (∀ source target, table.find? source = some target ↔ ⟨source, target⟩ ∈ table.phrases) ∧
      PhraseTable.ofList table.phrases = .ok table := by
  have hcons := h.consistent
  refine ⟨hcons.source_ne_nil, hcons.nodup, h.pairwise_comesBefore, ?_, ?_, ?_⟩
  · intro p hp hps
    refine ⟨hcons.target_ne_nil hp, fun o ho hos => ?_⟩
    exact ⟨hcons.not_occursIn p hp hps o ho hos, hcons.not_straddles p hp hps o ho hos⟩
  · intro source target
    exact find?_eq_some_iff hcons.nodup
  · exact ofList_eq_ok_iff.2 ⟨hcons, h.sorted_phrases⟩

end Reachable

/-- The table in which the target that completed an identity has been replaced. -/
def settledTable : PhraseTable :=
  ⟨[⟨['A', 'B', 'C'], ['A', 'B', 'C']⟩, ⟨['B', 'C', 'D'], ['B', 'C', 'D']⟩, ⟨['D'], ['z']⟩,
    ⟨['x'], ['Q']⟩]⟩

theorem override_shifting : shiftingTable.override [⟨['x'], ['Q']⟩] = .ok settledTable := by
  refine override_eq_ok_iff.2 ⟨⟨[⟨['x'], ['Q']⟩]⟩, ?_, ?_⟩ <;>
    exact ofList_eq_ok_of_pairwise (by decide +kernel) (by decide +kernel)

/-- The override leaves one phrase with the source `x`, and the table that comes of it is again what
its phrases make. -/
theorem representation_of_override :
    Reachable settledTable ∧ settledTable.find? ['x'] = some ['Q'] ∧
      PhraseTable.ofList settledTable.phrases = .ok settledTable := by
  have h : Reachable settledTable := .override (.ofList ofList_shifting) override_shifting
  obtain ⟨-, -, -, -, hfind, hlist⟩ := h.representation
  exact ⟨h, (hfind _ _).2 (by decide), hlist⟩

end PhraseTable

end Phrasebook
