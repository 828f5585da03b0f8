import Phrasebook.Proofs.Occurrence
/-!
# Words that no edge of a target cuts

A target encloses a word when, whatever text it is put into, each occurrence of the word that shares
a symbol with it lies inside it. The target may spell the word; what is ruled out is that the word
reaches over an edge of the target. That can be told from the two words alone, one alignment at a
time.

## Main definitions

* `Overhangs`: the word can stand on an edge of the target, judged from the two words alone.
* `Encloses`: no text around the target makes the word stand on an edge of it.

## Main results

* `encloses_of_not_overhangs`: a target encloses each word that does not overhang it.
-/

namespace Phrasebook

variable {α : Type}

/-- The word can reach over an edge of the target: it is longer than the target and contains it, or
a proper end of the target is a proper beginning of the word, or a proper beginning of the target is
a proper end of the word. -/
def Overhangs (word target : List α) : Prop :=
  (target <:+: word ∧ target ≠ word) ∨
    (∃ back, back ≠ [] ∧ back ≠ target ∧ back <:+ target ∧ back ≠ word ∧ back <+: word) ∨
    ∃ front, front ≠ [] ∧ front ≠ target ∧ front <+: target ∧ front ≠ word ∧ front <:+ word

/-- The ends and the beginnings of the target are all there is to try. -/
instance [DecidableEq α] (word target : List α) : Decidable (Overhangs word target) :=
  decidable_of_iff
    ((target <:+: word ∧ target ≠ word) ∨
      (∃ back ∈ target.tails, back ≠ [] ∧ back ≠ target ∧ back ≠ word ∧ back <+: word) ∨
      ∃ front ∈ target.inits, front ≠ [] ∧ front ≠ target ∧ front ≠ word ∧ front <:+ word) <| by
    simp only [Overhangs, List.mem_tails, List.mem_inits]
    refine or_congr_right (or_congr (exists_congr fun back => ?_) (exists_congr fun front => ?_))
    · tauto
    · tauto

/-- Wherever the target stands in a text, an occurrence of the word that shares a symbol with it
lies inside it. -/
def Encloses (target word : List α) : Prop :=
  ∀ before after place, OccursAt word (before ++ (target ++ after)) place →
    (Span.ofWord place word).Meets (.ofWord before.length target) →
      before.length ≤ place ∧ place + word.length ≤ before.length + target.length

/-- A word that begins before the target and goes on inside it overhangs its left edge. -/
theorem overhangs_of_prefix_append {front back target after : List α} (hfront : front ≠ [])
    (hback : back ≠ []) (h : back <+: target ++ after) : Overhangs (front ++ back) target := by
  have hlonger : ∀ rest : List α, rest ≠ front ++ rest := by
    intro rest heq
    have hlen := congrArg List.length heq
    rw [List.length_append] at hlen
    have hpos := List.length_pos_of_ne_nil hfront
    omega
  rcases Nat.lt_or_ge back.length target.length with hlt | hge
  · have hpre : back <+: target :=
      List.prefix_of_prefix_length_le h (List.prefix_append target after) (Nat.le_of_lt hlt)
    refine .inr (.inr ⟨back, hback, ?_, hpre, hlonger back, List.suffix_append front back⟩)
    rintro rfl
    exact Nat.lt_irrefl _ hlt
  · obtain ⟨rest, rfl⟩ := List.prefix_of_prefix_length_le (List.prefix_append target after) h hge
    refine .inl ⟨⟨front, rest, List.append_assoc _ _ _⟩, ?_⟩
    intro heq
    have hlen := congrArg List.length heq
    simp only [List.length_append] at hlen
    have hpos := List.length_pos_of_ne_nil hfront
    omega

/-- A word that begins inside the target and goes on after it overhangs its right edge. -/
theorem overhangs_of_prefix_drop {word target after : List α} {k : Nat} (hk : k < target.length)
    (hlong : target.length < k + word.length) (h : word <+: target.drop k ++ after) :
    Overhangs word target := by
  have hlen : (target.drop k).length = target.length - k := List.length_drop
  obtain ⟨rest, rfl⟩ :=
    List.prefix_of_prefix_length_le (List.prefix_append (target.drop k) after) h (by omega)
  have hrest : (target.drop k).length ≠ (target.drop k ++ rest).length := by omega
  rcases Nat.eq_zero_or_pos k with rfl | hpos
  · refine .inl ⟨⟨[], rest, rfl⟩, ?_⟩
    intro heq
    rw [List.drop_zero] at hrest
    exact hrest (congrArg List.length heq)
  · refine .inr (.inl
      ⟨target.drop k, ?_, ?_, List.drop_suffix k target, ?_, List.prefix_append _ _⟩)
    · exact List.ne_nil_of_length_pos (by omega)
    · intro heq
      have := congrArg List.length heq
      omega
    · intro heq
      exact hrest (congrArg List.length heq)

/-- **A target encloses each word that does not overhang it.** -/
theorem encloses_of_not_overhangs {word target : List α} (h : ¬ Overhangs word target) :
    Encloses target word := by
  intro before after place hocc hmeets
  simp only [Span.Meets, Span.ofWord] at hmeets
  have hleft : before.length ≤ place := by
    by_contra hlt
    rw [OccursAt, List.drop_append_of_le_length (by omega)] at hocc
    have hlen : (before.drop place).length = before.length - place := List.length_drop
    obtain ⟨back, rfl⟩ :=
      List.prefix_of_prefix_length_le (List.prefix_append _ _) hocc (by omega)
    rw [List.prefix_append_right_inj] at hocc
    rw [List.length_append] at hmeets
    refine h (overhangs_of_prefix_append ?_ ?_ hocc)
    · exact List.ne_nil_of_length_pos (by omega)
    · exact List.ne_nil_of_length_pos (by omega)
  refine ⟨hleft, ?_⟩
  by_contra hlong
  obtain ⟨k, rfl⟩ := Nat.exists_eq_add_of_le hleft
  have hk : k < target.length := by omega
  rw [occursAt_append_left, OccursAt, List.drop_append_of_le_length (Nat.le_of_lt hk)] at hocc
  exact h (overhangs_of_prefix_drop hk (by omega) hocc)

end Phrasebook
