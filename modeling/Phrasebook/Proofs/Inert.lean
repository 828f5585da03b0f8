import Phrasebook.Proofs.Enclosure
/-!
# Targets that no neighbour can bring to life

A target is inert for a word when, whatever text it is put into, no occurrence of the word shares
a symbol with it. This is what validation tests, one target and one source at a time, by looking at
the two words alone.

## Main definitions

* `Inert`: no text around the target makes the word occur in it, around it or across its edge.

## Main results

* `inert_of_straddles_eq_false`: the two tests of validation rule out every alignment.
* `length_occurrences_inert`: around an inert target, the occurrences are those before it and those
  after it.
-/

namespace Phrasebook

variable {α : Type}

/-- Wherever the target stands in a text, no occurrence of the word shares a symbol with it. -/
def Inert (word target : List α) : Prop :=
  ∀ before after place, OccursAt word (before ++ (target ++ after)) place →
    ¬ (Span.ofWord place word).Meets (.ofWord before.length target)

/-- An inert target has all of an occurrence on one of its sides. -/
theorem Inert.le_or_le {word target before after : List α} (h : Inert word target)
    (hword : word ≠ []) (htarget : target ≠ []) {place : Nat}
    (hocc : OccursAt word (before ++ (target ++ after)) place) :
    place + word.length ≤ before.length ∨ before.length + target.length ≤ place := by
  have hmeets := h before after place hocc
  have hw : 0 < word.length := List.length_pos_of_ne_nil hword
  have ht : 0 < target.length := List.length_pos_of_ne_nil htarget
  simp only [Span.Meets, Span.ofWord] at hmeets
  omega

theorem Inert.encloses {word target : List α} (h : Inert word target) : Encloses target word :=
  fun before after place hocc hmeets => absurd hmeets (h before after place hocc)

variable [DecidableEq α]

/-! ### The tests of validation -/

/-- A proper end of the text is the beginning of the word. -/
theorem tailBegins_tail_iff {text word : List α} :
    tailBegins text.tail word = true ↔
      ∃ front back after, front ≠ [] ∧ back ≠ [] ∧ text = front ++ back ∧ word = back ++ after := by
  rw [tailBegins_iff]
  constructor
  · rintro ⟨before, tail, after, hne, htail, rfl⟩
    cases text with
    | nil => simp_all
    | cons a text =>
      exact ⟨a :: before, tail, after, List.cons_ne_nil a before, hne, congrArg (a :: ·) htail, rfl⟩
  · rintro ⟨front, back, after, hfront, hback, rfl, rfl⟩
    obtain ⟨a, front, rfl⟩ := List.exists_cons_of_ne_nil hfront
    exact ⟨front, back, after, hback, rfl, rfl⟩

/-- The three ways for a target and a source to share some symbols, with some of the source outside
the target. -/
theorem straddles_iff {target source : List α} :
    straddles target source = true ↔
      (∃ before after, source = before ++ target ++ after) ∨
      (∃ front back after, front ≠ [] ∧ back ≠ [] ∧ target = front ++ back ∧
        source = back ++ after) ∨
      ∃ front back before, front ≠ [] ∧ back ≠ [] ∧ target = front ++ back ∧
        source = before ++ front := by
  rw [straddles, Bool.or_eq_true, Bool.or_eq_true, occursIn_iff, tailBegins_tail_iff,
    tailBegins_tail_iff, or_assoc]
  refine or_congr_right (or_congr_right ⟨?_, ?_⟩)
  · rintro ⟨back, front, before, hback, hfront, htarget, hsource⟩
    refine ⟨front.reverse, back.reverse, before.reverse, by simpa using hfront,
      by simpa using hback, ?_, ?_⟩
    · rw [← List.reverse_append, ← htarget, List.reverse_reverse]
    · rw [← List.reverse_append, ← hsource, List.reverse_reverse]
  · rintro ⟨front, back, before, hfront, hback, rfl, rfl⟩
    exact ⟨back.reverse, front.reverse, before.reverse, by simpa using hback,
      by simpa using hfront, List.reverse_append, List.reverse_append⟩

/-- A word that overhangs a target fails the second test. -/
theorem straddles_of_overhangs {word target : List α} (h : Overhangs word target) :
    straddles target word = true := by
  rw [straddles_iff]
  rcases h with ⟨⟨before, after, rfl⟩, -⟩ | ⟨back, hback, hne, ⟨front, rfl⟩, -, ⟨after, rfl⟩⟩ |
      ⟨front, hfront, hne, ⟨back, rfl⟩, -, ⟨before, rfl⟩⟩
  · exact .inl ⟨before, after, rfl⟩
  · exact .inr (.inl ⟨front, back, after, by simpa using hne, hback, rfl, rfl⟩)
  · exact .inr (.inr ⟨front, back, before, hfront, by simpa using hne, rfl, rfl⟩)

/-- **The tests of validation rule out every alignment.** The word reaches over no edge of the
target, and is not inside it. -/
theorem inert_of_straddles_eq_false {word target : List α} (hin : occursIn word target = false)
    (hstr : straddles target word = false) : Inert word target := by
  intro before after place hocc hmeets
  have hover : ¬ Overhangs word target := fun hover => by
    rw [straddles_of_overhangs hover] at hstr
    cases hstr
  obtain ⟨hstart, hstop⟩ := encloses_of_not_overhangs hover before after place hocc hmeets
  obtain ⟨k, rfl⟩ := Nat.exists_eq_add_of_le hstart
  rw [occursAt_append_left, occursAt_append_right (by omega)] at hocc
  rw [occursIn_of_occursAt hocc (by omega)] at hin
  cases hin

/-- The empty word is inside every word, so a target that passes the tests is not empty. -/
theorem ne_nil_of_straddles_eq_false {word target : List α} (h : straddles target word = false) :
    target ≠ [] := by
  rintro rfl
  have hin : straddles [] word = true := straddles_iff.2 (.inl ⟨[], word, rfl⟩)
  rw [hin] at h
  cases h

/-! ### Counting around an inert target -/

/-- Inside and after an inert target, the occurrences of the word are those after it. -/
theorem length_places_inert_append {word target : List α} (h : Inert word target)
    (hword : word ≠ []) (after : List α) :
    (places word (target ++ after)).length = (places word after).length := by
  have key : ∀ front back : List α, target = front ++ back →
      (places word (back ++ after)).length = (places word after).length := by
    intro front back
    induction back generalizing front with
    | nil => simp
    | cons a back ih =>
      intro htarget
      -- an occurrence at the head of `back` would share that symbol with the target
      have hnot : ¬ word <+: a :: (back ++ after) := by
        intro hpre
        have hocc : OccursAt word ([] ++ (target ++ after)) front.length := by
          rw [OccursAt, htarget, List.nil_append, List.append_assoc, List.drop_left]
          exact hpre
        have hw : 0 < word.length := List.length_pos_of_ne_nil hword
        have hmeets := h [] after front.length hocc
        simp only [Span.Meets, Span.ofWord, htarget, List.length_append, List.length_cons,
          List.length_nil] at hmeets
        omega
      rw [List.cons_append, length_places_cons, if_neg hnot, Nat.zero_add]
      exact ih (front ++ [a]) (by rw [htarget, List.append_assoc, List.singleton_append])
  exact key [] target rfl

/-- The occurrences of a word around an inert target are those before it and those after it. -/
theorem length_places_inert {word target : List α} (h : Inert word target) (hword : word ≠ [])
    (htarget : target ≠ []) (before after : List α) :
    (places word (before ++ (target ++ after))).length =
      (places word before).length + (places word after).length := by
  induction before with
  | nil => simpa [places] using length_places_inert_append h hword after
  | cons a before ih =>
    have hiff : word <+: a :: (before ++ (target ++ after)) ↔ word <+: a :: before := by
      refine ⟨fun hpre => ?_, fun hpre => hpre.trans (List.prefix_append (a :: before) _)⟩
      have hocc : OccursAt word ((a :: before) ++ (target ++ after)) 0 := hpre
      have hside := h.le_or_le hword htarget hocc
      rw [List.length_cons] at hside
      exact List.prefix_of_prefix_length_le hpre (List.prefix_append (a :: before) _)
        (by rw [List.length_cons]; omega)
    rw [List.cons_append, length_places_cons, length_places_cons, ih]
    simp only [hiff]
    omega

/-- **Counting around an inert target.** When the target is inert for every phrase, the occurrences
of the phrases around it are those before it and those after it. -/
theorem length_occurrences_inert {phrases : List (Phrase α)} {target : List α}
    (h : ∀ phrase ∈ phrases, Inert phrase.source target)
    (hsource : ∀ phrase ∈ phrases, phrase.source ≠ []) (htarget : target ≠ [])
    (before after : List α) :
    (occurrences phrases (before ++ (target ++ after))).length =
      (occurrences phrases before).length + (occurrences phrases after).length := by
  induction phrases with
  | nil => rfl
  | cons phrase phrases ih =>
    have hhead := length_places_inert (h phrase List.mem_cons_self)
      (hsource phrase List.mem_cons_self) htarget before after
    have hrest := ih (fun p hp => h p (List.mem_cons_of_mem _ hp))
      fun p hp => hsource p (List.mem_cons_of_mem _ hp)
    rw [length_occurrences_cons, length_occurrences_cons, length_occurrences_cons]
    omega

end Phrasebook
