import Phrasebook.Proofs.InsertedTargets
import Phrasebook.Proofs.Selection
/-!
# Where the new text comes from

Text that a pass carries over stands in both texts, at places that may differ by what was inserted
before it. This module takes places of the new text back to the given one, and compares what the
next pass chooses in the new text with what this pass has chosen.

## Main definitions

* `origin`: the place of the given text that a place of carried over text comes from.
* `Occurrence.traced`: an occurrence in the new text, taken back to the given one.

## Main results

* `mem_select_iff_traced`: if targets enclose all sources, an occurrence in carried over text is
  chosen in the new text exactly if the one that it comes from was chosen in the given text.
-/

namespace Phrasebook

open Segment

variable {α : Type}

/-- The place of the given text that a place of carried over text comes from. -/
def origin : List (Segment α) → Nat → Nat
  | [], place => place
  | piece :: rest, place =>
    if place < piece.rendered.length then place
    else piece.given.length + origin rest (place - piece.rendered.length)

theorem origin_append (before rest : List (Segment α)) (place : Nat) :
    origin (before ++ rest) ((before.flatMap rendered).length + place) =
      (before.flatMap given).length + origin rest place := by
  induction before with
  | nil => simp
  | cons piece before ih =>
    have hnot : ¬ (piece.rendered.length + (before.flatMap rendered).length) + place <
        piece.rendered.length := by omega
    rw [List.flatMap_cons, List.flatMap_cons, List.length_append, List.length_append,
      List.cons_append, origin, if_neg hnot, Nat.add_assoc, Nat.add_sub_cancel_left, ih,
      Nat.add_assoc]

/-- Within pieces without an inserted target, nothing is moved. -/
theorem origin_of_lt {run after : List (Segment α)} (hrun : ∀ piece ∈ run, ¬ piece.IsInserted)
    {place : Nat} (hplace : place < (run.flatMap rendered).length) :
    origin (run ++ after) place = place := by
  induction run generalizing place with
  | nil => exact absurd hplace (Nat.not_lt_zero _)
  | cons piece run ih =>
    rw [List.flatMap_cons, List.length_append] at hplace
    rw [List.cons_append, origin]
    by_cases hfirst : place < piece.rendered.length
    · exact if_pos hfirst
    · have hrest : place - piece.rendered.length < (run.flatMap rendered).length := by omega
      rw [if_neg hfirst, ih (fun x hx => hrun x (List.mem_cons_of_mem _ hx)) hrest,
        ← rendered_eq_given (hrun piece List.mem_cons_self)]
      omega

/-! ### Neighbouring pieces that were carried over -/

section

variable {before run after : List (Segment α)} (hrun : ∀ piece ∈ run, ¬ piece.IsInserted)

include hrun

theorem origin_run {k : Nat} (hk : k < (run.flatMap rendered).length) :
    origin (before ++ (run ++ after)) ((before.flatMap rendered).length + k) =
      (before.flatMap given).length + k := by
  rw [origin_append, origin_of_lt hrun hk]

/-- What occurs there in one text does so in the other. -/
theorem occursAt_run_iff {word : List α} {k : Nat}
    (hk : k + word.length ≤ (run.flatMap rendered).length) :
    OccursAt word ((before ++ (run ++ after)).flatMap rendered)
        ((before.flatMap rendered).length + k) ↔
      OccursAt word ((before ++ (run ++ after)).flatMap given)
        ((before.flatMap given).length + k) := by
  have hspell : run.flatMap rendered = run.flatMap given := flatMap_rendered_eq_given hrun
  rw [List.flatMap_append, List.flatMap_append, List.flatMap_append, List.flatMap_append,
    occursAt_append_left, occursAt_append_left, occursAt_append_right hk,
    occursAt_append_right (hspell ▸ hk), hspell]

/-- A replaced piece that stands there, even in part, is one of these pieces. -/
theorem mem_marks_run {o : Occurrence α} {s : Span} (ho : o ∈ marks 0 (before ++ (run ++ after)))
    (hstart : (before.flatMap given).length ≤ s.start)
    (hstop : s.stop ≤ (before.flatMap given).length + (run.flatMap rendered).length)
    (hmeets : s.Meets o.span) : o ∈ marks (before.flatMap given).length run := by
  rw [flatMap_rendered_eq_given hrun] at hstop
  rw [marks_append, marks_append, Nat.zero_add, List.mem_append, List.mem_append] at ho
  simp only [Span.Meets, Occurrence.span, Span.ofWord] at hmeets
  rcases ho with ho | ho | ho
  · have := (mem_marks_bounds ho).2
    simp only [Occurrence.span, Span.ofWord] at this
    omega
  · exact ho
  · have := (mem_marks_bounds ho).1
    omega

end

/-! ### Occurrences taken back -/

/-- An occurrence in the new text, taken back to the given one. -/
def Occurrence.traced (pieces : List (Segment α)) (o : Occurrence α) : Occurrence α :=
  ⟨o.phrase, origin pieces o.place⟩

section

variable {pieces : List (Segment α)}

/-- A carried over span is moved as a whole. -/
theorem CarriedOver.exists_shift {s : Span} (h : CarriedOver pieces s) :
    ∃ old new, ∀ place, s.Covers place → origin pieces place + new = place + old := by
  obtain ⟨before, run, after, rfl, hrun, hstart, hstop⟩ := h
  refine ⟨(before.flatMap given).length, (before.flatMap rendered).length, ?_⟩
  intro place hcovers
  obtain ⟨k, rfl⟩ : ∃ k, place = (before.flatMap rendered).length + k :=
    Nat.exists_eq_add_of_le (hstart.trans hcovers.1)
  have hk : k < (run.flatMap rendered).length := by
    have := hcovers.2
    omega
  rw [origin_run hrun hk]
  omega

/-- Two that share a symbol are moved together. -/
theorem CarriedOver.exists_common_shift {s t : Span} (hs : CarriedOver pieces s)
    (ht : CarriedOver pieces t) (hmeets : s.Meets t) :
    ∃ old new, ∀ place, s.Covers place ∨ t.Covers place →
      origin pieces place + new = place + old := by
  obtain ⟨old, new, hshift⟩ := hs.exists_shift
  obtain ⟨old', new', hshift'⟩ := ht.exists_shift
  obtain ⟨shared, hshared, hshared'⟩ := Span.meets_iff.1 hmeets
  have heq := hshift shared hshared
  have heq' := hshift' shared hshared'
  refine ⟨old, new, ?_⟩
  intro place hplace
  rcases hplace with hplace | hplace
  · exact hshift place hplace
  · have := hshift' place hplace
    omega

/-- An occurrence in carried over text stands in both texts, at places that may differ, and in the
given text it touches only pieces that were carried over. -/
theorem CarriedOver.exists_run {o : Occurrence α} (h : CarriedOver pieces o.span)
    (hne : o.phrase.source ≠ []) :
    ∃ before run after k, pieces = before ++ (run ++ after) ∧
      (∀ piece ∈ run, ¬ piece.IsInserted) ∧ o.place = (before.flatMap rendered).length + k ∧
        (o.traced pieces).place = (before.flatMap given).length + k ∧
          k + o.phrase.source.length ≤ (run.flatMap rendered).length ∧
            ∀ c ∈ marks 0 pieces, (o.traced pieces).span.Meets c.span →
              c ∈ marks (before.flatMap given).length run := by
  obtain ⟨before, run, after, rfl, hrun, hstart, hstop⟩ := h
  have hpos : 0 < o.phrase.source.length := List.length_pos_of_ne_nil hne
  obtain ⟨k, hplace⟩ : ∃ k, o.place = (before.flatMap rendered).length + k :=
    Nat.exists_eq_add_of_le hstart
  simp only [Occurrence.span, Span.ofWord] at hstop
  have hk : k + o.phrase.source.length ≤ (run.flatMap rendered).length := by omega
  have htraced : (o.traced (before ++ (run ++ after))).place =
      (before.flatMap given).length + k := by
    rw [Occurrence.traced, hplace]
    exact origin_run hrun (by omega)
  refine ⟨before, run, after, k, rfl, hrun, hplace, htraced, hk, ?_⟩
  intro c hc hmeets
  refine mem_marks_run hrun hc ?_ ?_ hmeets <;> rw [Occurrence.span, Span.ofWord, htraced]
  · exact Nat.le_add_right _ k
  · rw [Nat.add_assoc]
    exact Nat.add_le_add_left hk _

theorem occursAt_traced {o : Occurrence α} (ho : CarriedOver pieces o.span)
    (hne : o.phrase.source ≠ [])
    (hocc : OccursAt o.phrase.source (pieces.flatMap rendered) o.place) :
    OccursAt o.phrase.source (pieces.flatMap given) (o.traced pieces).place := by
  obtain ⟨before, run, after, k, rfl, hrun, hplace, htraced, hk, -⟩ := ho.exists_run hne
  rw [hplace] at hocc
  rw [htraced]
  exact (occursAt_run_iff hrun hk).1 hocc

/-- A traced occurrence is no replaced piece unless its phrase is an identity. -/
theorem isIdentity_of_traced_mem_marks {o : Occurrence α} (ho : CarriedOver pieces o.span)
    (hne : o.phrase.source ≠ []) (hmem : o.traced pieces ∈ marks 0 pieces) :
    o.phrase.IsIdentity := by
  obtain ⟨before, run, after, k, rfl, hrun, -, -, -, hmarks⟩ := ho.exists_run hne
  have hself := Occurrence.covers_place (o := o.traced (before ++ (run ++ after))) hne
  have hrunmem := hmarks _ hmem (Span.meets_iff.2 ⟨_, hself, hself⟩)
  have hpiece : replaced o.phrase ∈ run := (map_phrase_marks _ run o.phrase).1 ⟨_, hrunmem⟩
  exact of_not_not (hrun _ hpiece)

variable [DecidableEq α]

/-- Tracing two occurrences that share a symbol keeps their order, and what they share. -/
theorem before_traced {phrases : List (Phrase α)} {c o : Occurrence α}
    (hc : CarriedOver pieces c.span) (ho : CarriedOver pieces o.span)
    (hcne : c.phrase.source ≠ []) (hone : o.phrase.source ≠ []) (hmeets : o.span.Meets c.span)
    (hbefore : c.Before phrases o) :
    (c.traced pieces).Before phrases (o.traced pieces) ∧
      (o.traced pieces).span.Meets (c.traced pieces).span := by
  obtain ⟨old, new, hshift⟩ := ho.exists_common_shift hc hmeets
  have hoplace := hshift o.place (.inl (Occurrence.covers_place hone))
  have hcplace := hshift c.place (.inr (Occurrence.covers_place hcne))
  constructor
  · simp only [Occurrence.Before, Occurrence.traced] at hbefore ⊢
    omega
  · simp only [Span.Meets, Occurrence.span, Span.ofWord, Occurrence.traced] at hmeets ⊢
    omega

/-- A replaced piece that a traced occurrence touches is itself traced from the new text, where it
touches the occurrence. -/
theorem exists_traced_eq {o c : Occurrence α} (ho : CarriedOver pieces o.span)
    (hone : o.phrase.source ≠ []) (hcne : c.phrase.source ≠ []) (hc : c ∈ marks 0 pieces)
    (hocc : OccursAt c.phrase.source (pieces.flatMap given) c.place)
    (hmeets : (o.traced pieces).span.Meets c.span) :
    ∃ d : Occurrence α, d.traced pieces = c ∧ o.span.Meets d.span ∧
      OccursAt d.phrase.source (pieces.flatMap rendered) d.place ∧
        ∀ phrases, c.Before phrases (o.traced pieces) → d.Before phrases o := by
  obtain ⟨before, run, after, k, rfl, hrun, hplace, htraced, hk, hmarks⟩ := ho.exists_run hone
  have hcrun : c ∈ marks (before.flatMap given).length run := hmarks c hc hmeets
  have hcpos : 0 < c.phrase.source.length := List.length_pos_of_ne_nil hcne
  obtain ⟨hcstart, hcstop⟩ := mem_marks_bounds hcrun
  rw [← flatMap_rendered_eq_given hrun] at hcstop
  simp only [Occurrence.span, Span.ofWord] at hcstop
  obtain ⟨j, hj⟩ : ∃ j, c.place = (before.flatMap given).length + j :=
    Nat.exists_eq_add_of_le hcstart
  have hjk : j + c.phrase.source.length ≤ (run.flatMap rendered).length := by omega
  have horigin : origin (before ++ (run ++ after)) ((before.flatMap rendered).length + j) =
      c.place := by
    rw [hj]
    exact origin_run hrun (by omega)
  refine ⟨⟨c.phrase, (before.flatMap rendered).length + j⟩, ?_, ?_, ?_, ?_⟩
  · rw [Occurrence.traced, horigin]
  · simp only [Span.Meets, Occurrence.span, Span.ofWord, Occurrence.traced] at hmeets htraced ⊢
    omega
  · rw [hj] at hocc
    exact (occursAt_run_iff hrun hjk).2 hocc
  · intro phrases hbefore
    simp only [Occurrence.Before, Occurrence.traced] at hbefore htraced ⊢
    omega

end

/-! ### What the next pass chooses -/

section

variable {phrases : List (Phrase Char)} {text : Text}

/-- **The next pass chooses what this one has chosen.** If the targets that a pass inserts enclose
all sources, those of identities included, then an occurrence in carried over text is chosen in the
new text exactly if the one that it comes from was chosen in the given text. -/
theorem mem_select_iff_traced (h : Phrase.Consistent phrases)
    (henc : ∀ p ∈ phrases, ¬ p.IsIdentity → ∀ o ∈ phrases, Encloses p.target o.source)
    {o : Occurrence Char} (ho : o ∈ occurrences phrases (translate phrases text).text)
    (hcarried : CarriedOver (segments phrases text) o.span) :
    o ∈ select (occurrences phrases (translate phrases text).text) ↔
      o.traced (segments phrases text) ∈ select (occurrences phrases text) := by
  have hnodup := h.nodup_phrases
  have hne : ∀ p ∈ phrases, p.source ≠ [] := h.source_ne_nil
  -- the induction is on the order in which the next pass takes the occurrences
  induction o using WellFounded.induction (Occurrence.Before.wellFounded phrases) with
  | h o ih =>
    obtain ⟨hphrase, -, hocc⟩ := mem_occurrences.1 ho
    rw [mem_select_occurrences_iff hnodup, mem_select_occurrences_iff hnodup]
    constructor
    · rintro ⟨-, hclear⟩
      have htraced := occursAt_traced hcarried (hne _ hphrase) hocc
      rw [flatMap_given_segments] at htraced
      refine ⟨mem_occurrences_of_occursAt hphrase (hne _ hphrase) htraced, ?_⟩
      intro c hc hbefore hmeets
      obtain ⟨hcphrase, -, hcocc⟩ :=
        mem_occurrences.1 ((mem_select_occurrences_iff hnodup).1 hc).1
      rw [← flatMap_given_segments phrases text] at hcocc
      obtain ⟨d, rfl, hdmeets, hdocc, hdbefore⟩ := exists_traced_eq hcarried
        (hne _ hphrase) (hne _ hcphrase) ((perm_marks_select hne text).mem_iff.2 hc) hcocc hmeets
      have hd : d ∈ occurrences phrases (translate phrases text).text :=
        mem_occurrences_of_occursAt hcphrase (hne _ hcphrase) hdocc
      have hdcarried := h.carriedOver_of_meets henc hcarried hcphrase hdocc hdmeets
      have hdselect := (ih d (hdbefore phrases hbefore) hd hdcarried).2 hc
      exact hclear d hdselect (hdbefore phrases hbefore) hdmeets
    · rintro ⟨-, hclear⟩
      refine ⟨ho, ?_⟩
      intro c hc hbefore hmeets
      have hcmem := ((mem_select_occurrences_iff hnodup).1 hc).1
      obtain ⟨hcphrase, -, hcocc⟩ := mem_occurrences.1 hcmem
      have hccarried := h.carriedOver_of_meets henc hcarried hcphrase hcocc hmeets
      obtain ⟨htbefore, htmeets⟩ := before_traced hccarried hcarried
        (hne _ hcphrase) (hne _ hphrase) hmeets hbefore
      exact hclear _ ((ih c hbefore hcmem hccarried).1 hc) htbefore htmeets

end

end Phrasebook
