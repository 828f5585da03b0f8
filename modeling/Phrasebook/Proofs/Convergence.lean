import Phrasebook.Proofs.Consistent
import Phrasebook.Proofs.Pass
/-!
# Repeated passes come to rest

Each pass of a validated table uses up occurrences of the sources that the table replaces: the
substitutions of a pass are paid for by the occurrences of the text that it was given, and what
occurs in the new text was there before. So all the substitutions of a sequence of passes, each over
the text of the one before, are at most the occurrences of the first text, and after that many
passes one of them has substituted nothing. From then on the text stays as it is.

## Main definitions

* `PhraseTable.pending`: how often a source that is replaced occurs in a text.
* `PhraseTable.after`: the text after a number of passes.
* `PhraseTable.spent`: the substitutions of a number of passes.

## Main results

* `pending_translate_add_substitutions_le`: what one pass uses up.
* `PhraseTable.passes_come_to_rest`: what a sequence of passes comes to.

## Implementation notes

The pieces of a pass are taken from left to right. Carried over text is collected until an inserted
target follows, which is inert and so parts the occurrences before it from those after it.
-/

namespace Phrasebook

open Segment

section

variable {α : Type} [DecidableEq α]

/-- The occurrences that the new text has, together with the substitutions, are no more than those
of the old text. `kept` is text before the pieces that both texts have. -/
theorem length_occurrences_rendered_add_le {rewriting : List (Phrase α)}
    {pieces : List (Segment α)} (hsource : ∀ o ∈ rewriting, o.source ≠ [])
    (hpieces : ∀ p, .replaced p ∈ pieces → ¬ p.IsIdentity →
      p ∈ rewriting ∧ p.target ≠ [] ∧ ∀ o ∈ rewriting, Inert o.source p.target)
    (kept : List α) :
    (occurrences rewriting (kept ++ pieces.flatMap rendered)).length +
        pieces.countP (fun piece => decide piece.IsInserted) ≤
      (occurrences rewriting (kept ++ pieces.flatMap given)).length := by
  induction pieces generalizing kept with
  | nil => exact Nat.le_refl _
  | cons x rest ih =>
    have hrest : ∀ p, .replaced p ∈ rest → ¬ p.IsIdentity →
        p ∈ rewriting ∧ p.target ≠ [] ∧ ∀ o ∈ rewriting, Inert o.source p.target :=
      fun p hp => hpieces p (List.mem_cons_of_mem _ hp)
    rw [List.flatMap_cons, List.flatMap_cons, List.countP_cons]
    by_cases hx : x.IsInserted
    · cases x with
      | untouched u => exact absurd hx id
      | replaced p =>
        obtain ⟨hp, htarget, hinert⟩ := hpieces p List.mem_cons_self hx
        have hnew := length_occurrences_inert hinert hsource htarget kept (rest.flatMap rendered)
        have hold := length_occurrences_append_le rewriting kept (p.source ++ rest.flatMap given)
        have hsplit := length_occurrences_append_le rewriting p.source (rest.flatMap given)
        have hself := one_le_length_occurrences hp (hsource p hp)
        have hih := ih hrest []
        simp only [List.nil_append] at hih
        simp only [rendered, given, hx, decide_true, if_true]
        omega
    · have hih := ih hrest (kept ++ x.given)
      rw [List.append_assoc, List.append_assoc] at hih
      rw [rendered_eq_given hx]
      simpa only [hx, decide_false, Bool.false_eq_true, if_false, Nat.add_zero] using hih

end

namespace PhraseTable

/-- How often a source that the table replaces occurs in the text, overlapping occurrences
included. -/
def pending (table : PhraseTable) (text : Text) : Nat :=
  (occurrences (Phrase.substituting table.phrases) text).length

/-- The text after a number of passes, each over the text of the one before. -/
def after (table : PhraseTable) (text : Text) : Nat → Text
  | 0 => text
  | n + 1 => (table.translate (table.after text n)).text

/-- The substitutions of the first passes, added up. -/
def spent (table : PhraseTable) (text : Text) : Nat → Nat
  | 0 => 0
  | n + 1 => table.spent text n + (table.translate (table.after text n)).substitutions

variable {table : PhraseTable}

/-- **What one pass uses up.** -/
theorem pending_translate_add_substitutions_le (h : Phrase.Consistent table.phrases) (text : Text) :
    table.pending (table.translate text).text + (table.translate text).substitutions ≤
      table.pending text := by
  have hsource : ∀ o ∈ Phrase.substituting table.phrases, o.source ≠ [] := fun o ho =>
    h.source_ne_nil o (Phrase.mem_substituting.1 ho).1
  have hpieces : ∀ p, .replaced p ∈ segments table.phrases text → ¬ p.IsIdentity →
      p ∈ Phrase.substituting table.phrases ∧ p.target ≠ [] ∧
        ∀ o ∈ Phrase.substituting table.phrases, Inert o.source p.target := by
    intro p hp hps
    have hmem := mem_of_replaced_mem_segments hp
    refine ⟨Phrase.mem_substituting.2 ⟨hmem, hps⟩, h.target_ne_nil hmem, ?_⟩
    intro o ho
    obtain ⟨ho, hos⟩ := Phrase.mem_substituting.1 ho
    exact h.inert hmem hps ho hos
  have hpass := length_occurrences_rendered_add_le hsource hpieces []
  rw [List.nil_append, List.nil_append, flatMap_given_segments,
    ← substitutions_eq_countP] at hpass
  exact hpass

/-- All passes together are paid for by the occurrences of the first text. -/
theorem pending_after_add_spent_le (h : Phrase.Consistent table.phrases) (text : Text) (n : Nat) :
    table.pending (table.after text n) + table.spent text n ≤ table.pending text := by
  induction n with
  | zero => exact Nat.le_refl _
  | succ n ih =>
    have hpass := pending_translate_add_substitutions_le h (table.after text n)
    rw [spent, after]
    omega

/-- Passes that all substitute something spend at least one each. -/
theorem le_spent {text : Text} {n : Nat}
    (h : ∀ k < n, (table.translate (table.after text k)).substitutions ≠ 0) :
    n ≤ table.spent text n := by
  induction n with
  | zero => exact Nat.zero_le _
  | succ n ih =>
    have hlast : (table.translate (table.after text n)).substitutions ≠ 0 :=
      h n (Nat.lt_succ_self n)
    have hfirst : n ≤ table.spent text n := ih fun k hk => h k (Nat.lt_succ_of_lt hk)
    rw [spent]
    omega

/-- After a pass that substituted nothing, the text stays as it is. -/
theorem after_add_of_substitutions_eq_zero {text : Text} {k : Nat}
    (hk : (table.translate (table.after text k)).substitutions = 0) (n : Nat) :
    table.after text (k + n) = table.after text k := by
  induction n with
  | zero => rfl
  | succ n ih =>
    rw [← Nat.add_assoc, after, ih]
    exact translate_text_of_substitutions_eq_zero hk

/-- **Repeated passes come to rest.** Each pass of a validated table uses up occurrences of the
sources that are replaced; all passes together substitute no more than there were at first; one of
the first passes, as many as there were and one more, substitutes nothing; and after a pass that
substituted nothing, every pass gives the same text and substitutes nothing. -/
theorem passes_come_to_rest {phrases : List (Phrase Char)} (h : ofList phrases = .ok table)
    (text : Text) :
    table.pending (table.translate text).text + (table.translate text).substitutions ≤
        table.pending text ∧
      (∀ n, table.spent text n ≤ table.pending text) ∧
      (∃ k < table.pending text + 1, (table.translate (table.after text k)).substitutions = 0) ∧
      ∀ k, (table.translate (table.after text k)).substitutions = 0 → ∀ m, k ≤ m →
        (table.translate (table.after text m)).text = table.after text k ∧
          (table.translate (table.after text m)).substitutions = 0 := by
  have hcons := consistent_of_ofList h
  have hspent : ∀ n, table.spent text n ≤ table.pending text := fun n =>
    Nat.le_of_add_left_le (pending_after_add_spent_le hcons text n)
  refine ⟨pending_translate_add_substitutions_le hcons text, hspent, ?_, ?_⟩
  · -- otherwise each of these passes substitutes at least once, which is once too often
    by_contra hnone
    have hall : ∀ k < table.pending text + 1,
        (table.translate (table.after text k)).substitutions ≠ 0 :=
      fun k hk hzero => hnone ⟨k, hk, hzero⟩
    exact absurd (hspent (table.pending text + 1)) (Nat.not_le_of_lt (le_spent hall))
  · intro k hk m hm
    obtain ⟨n, rfl⟩ := Nat.exists_eq_add_of_le hm
    rw [after_add_of_substitutions_eq_zero hk n]
    exact ⟨translate_text_of_substitutions_eq_zero hk, hk⟩

/-- The `x` and the `D` of `xBCD` can be replaced, so one of three passes changes nothing. -/
theorem passes_come_to_rest_of_shifting :
    ofList shifting = .ok shiftingTable ∧ shiftingTable.pending ['x', 'B', 'C', 'D'] = 2 ∧
      ∃ k < 3, (shiftingTable.translate
        (shiftingTable.after ['x', 'B', 'C', 'D'] k)).substitutions = 0 := by
  have hpending : shiftingTable.pending ['x', 'B', 'C', 'D'] = 2 := by decide +kernel
  obtain ⟨-, -, hrest, -⟩ := passes_come_to_rest ofList_shifting ['x', 'B', 'C', 'D']
  rw [hpending] at hrest
  exact ⟨ofList_shifting, hpending, hrest⟩

end PhraseTable

end Phrasebook
