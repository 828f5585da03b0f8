import Mathlib.Data.List.Infix
import Phrasebook.Rendition
/-!
# Where words occur in a text

A word occurs at a place of a text when it is the beginning of what stands from there on.
Occurrences of one word may overlap each other. This module gives them names, counts them, and
says how the count behaves when texts are joined.

## Main definitions

* `Span`: the places from one to before another, with `Span.Meets`: two spans share a symbol.
* `OccursAt`: a word occurs at a place of a text.
* `places`: all places where a word occurs, from left to right.
* `Occurrence`: a phrase and a place where its source occurs.
* `occurrences`: all occurrences of a list of phrases, with their order `Occurrence.Before`: by
  phrase and then by place.

## Main results

* `length_places_append_le`: joining two texts loses no occurrence.
* `length_occurrences_append_le`: the same for all phrases of a list together.
-/

namespace Phrasebook

/-- The places of a text from `start` on and before `stop`. -/
structure Span where
  /-- The first place of the span, unless it is empty. -/
  start : Nat
  /-- The first place after the span. -/
  stop : Nat
  deriving DecidableEq, Repr

namespace Span

/-- The place lies in the span. -/
def Covers (s : Span) (place : Nat) : Prop :=
  s.start ≤ place ∧ place < s.stop

instance (s : Span) (place : Nat) : Decidable (s.Covers place) :=
  inferInstanceAs (Decidable (_ ∧ _))

/-- The two spans share a symbol. -/
def Meets (s t : Span) : Prop :=
  max s.start t.start < min s.stop t.stop

instance (s t : Span) : Decidable (s.Meets t) :=
  inferInstanceAs (Decidable (_ < _))

theorem meets_iff {s t : Span} : s.Meets t ↔ ∃ place, s.Covers place ∧ t.Covers place := by
  constructor
  · intro h
    refine ⟨max s.start t.start, ?_⟩
    simp only [Meets, Covers] at *
    omega
  · rintro ⟨place, hs, ht⟩
    simp only [Meets, Covers] at *
    omega

theorem Meets.symm {s t : Span} (h : s.Meets t) : t.Meets s := by
  simp only [Meets] at *
  omega

/-- A span that meets another meets every longer one around it. -/
theorem Meets.mono {s t u : Span} (h : s.Meets t) (hstart : u.start ≤ t.start)
    (hstop : t.stop ≤ u.stop) : s.Meets u := by
  simp only [Meets] at *
  omega

/-- The span that a word takes up from a place on. -/
def ofWord {α : Type} (place : Nat) (word : List α) : Span :=
  ⟨place, place + word.length⟩

end Span

variable {α : Type}

/-- The word occurs in the text, beginning at the place. -/
def OccursAt (word text : List α) (place : Nat) : Prop :=
  word <+: text.drop place

instance [DecidableEq α] (word text : List α) (place : Nat) :
    Decidable (OccursAt word text place) :=
  inferInstanceAs (Decidable (_ <+: _))

theorem occursAt_append {before word after : List α} :
    OccursAt word (before ++ (word ++ after)) before.length := by
  rw [OccursAt, List.drop_left]
  exact List.prefix_append word after

/-- An occurrence cuts the text in three. -/
theorem OccursAt.exists_eq {word text : List α} {place : Nat} (h : OccursAt word text place)
    (hplace : place ≤ text.length) :
    ∃ before after, text = before ++ (word ++ after) ∧ before.length = place := by
  obtain ⟨after, hafter⟩ := h
  refine ⟨text.take place, after, ?_, List.length_take_of_le hplace⟩
  rw [hafter, List.take_append_drop]

/-- A word that is not empty occurs only where there is room for it. -/
theorem OccursAt.add_length_le {word text : List α} {place : Nat} (h : OccursAt word text place)
    (hne : word ≠ []) : place + word.length ≤ text.length := by
  have hle : word.length ≤ (text.drop place).length := List.IsPrefix.length_le h
  have hpos : 0 < word.length := List.length_pos_of_ne_nil hne
  rw [List.length_drop] at hle
  omega

/-- What stands before a text moves its occurrences and changes nothing else. -/
theorem occursAt_append_left {word before text : List α} {place : Nat} :
    OccursAt word (before ++ text) (before.length + place) ↔ OccursAt word text place := by
  rw [OccursAt, OccursAt, List.drop_length_add_append]

/-- What stands after a text cannot change an occurrence that ends inside the text. -/
theorem occursAt_append_right {word text after : List α} {place : Nat}
    (hstop : place + word.length ≤ text.length) :
    OccursAt word (text ++ after) place ↔ OccursAt word text place := by
  rw [OccursAt, OccursAt, List.drop_append_of_le_length (by omega)]
  refine ⟨fun h => ?_, fun h => h.trans (List.prefix_append _ _)⟩
  exact List.prefix_of_prefix_length_le h (List.prefix_append _ _)
    (by rw [List.length_drop]; omega)

variable [DecidableEq α]

theorem occursIn_of_occursAt {word text : List α} {place : Nat} (h : OccursAt word text place)
    (hplace : place ≤ text.length) : occursIn word text = true := by
  obtain ⟨before, after, htext, -⟩ := h.exists_eq hplace
  exact occursIn_iff.2 ⟨before, after, by rw [htext, List.append_assoc]⟩

/-! ### All places of a word -/

/-- The places of a text where a word occurs, from left to right. -/
def places (word text : List α) : List Nat :=
  (List.range text.length).filter fun place => OccursAt word text place

theorem mem_places {word text : List α} {place : Nat} :
    place ∈ places word text ↔ place < text.length ∧ OccursAt word text place := by
  simp [places]

theorem length_places_cons (word : List α) (a : α) (text : List α) :
    (places word (a :: text)).length =
      (if word <+: a :: text then 1 else 0) + (places word text).length := by
  have hrest : ((List.range text.length).map Nat.succ).filter
      (fun place => decide (OccursAt word (a :: text) place)) =
        (places word text).map Nat.succ := by
    rw [List.filter_map]
    rfl
  rw [places, List.length_cons, List.range_succ_eq_map, List.filter_cons, hrest]
  simp only [OccursAt, List.drop_zero, decide_eq_true_eq]
  split <;> simp [Nat.add_comm]

/-- Joining two texts loses no occurrence: each one in either text is one in the joined text. -/
theorem length_places_append_le (word before after : List α) :
    (places word before).length + (places word after).length ≤
      (places word (before ++ after)).length := by
  induction before with
  | nil => simp [places]
  | cons a before ih =>
    have hpre : word <+: a :: before → word <+: a :: (before ++ after) := fun h =>
      h.trans (List.prefix_append (a :: before) after)
    rw [List.cons_append, length_places_cons, length_places_cons]
    by_cases h : word <+: a :: before
    · rw [if_pos h, if_pos (hpre h)]
      omega
    · rw [if_neg h]
      omega

/-! ### Occurrences of phrases -/

/-- A phrase and a place where its source occurs. -/
structure Occurrence (α : Type) where
  /-- The phrase. -/
  phrase : Phrase α
  /-- Where its source begins. -/
  place : Nat
  deriving DecidableEq, Repr

/-- The span that the source takes up. -/
def Occurrence.span {α : Type} (o : Occurrence α) : Span :=
  .ofWord o.place o.phrase.source

theorem Occurrence.covers_place {α : Type} {o : Occurrence α} (hne : o.phrase.source ≠ []) :
    o.span.Covers o.place := by
  have hpos : 0 < o.phrase.source.length := List.length_pos_of_ne_nil hne
  simp only [Span.Covers, Occurrence.span, Span.ofWord]
  omega

/-- The occurrences of one phrase in a text, from left to right. -/
def occurrencesOf (text : List α) (phrase : Phrase α) : List (Occurrence α) :=
  (places phrase.source text).map (⟨phrase, ·⟩)

/-- The occurrences of all phrases in a text: those of the first phrase, from left to right, then
those of the second, and so on. -/
def occurrences (phrases : List (Phrase α)) (text : List α) : List (Occurrence α) :=
  phrases.flatMap (occurrencesOf text)

theorem mem_occurrences {phrases : List (Phrase α)} {text : List α} {o : Occurrence α} :
    o ∈ occurrences phrases text ↔
      o.phrase ∈ phrases ∧ o.place < text.length ∧ OccursAt o.phrase.source text o.place := by
  rw [occurrences, List.mem_flatMap]
  constructor
  · rintro ⟨phrase, hphrase, ho⟩
    obtain ⟨place, hplace, rfl⟩ := List.mem_map.1 ho
    exact ⟨hphrase, mem_places.1 hplace⟩
  · rintro ⟨hphrase, hplace⟩
    exact ⟨o.phrase, hphrase, List.mem_map.2 ⟨o.place, mem_places.2 hplace, rfl⟩⟩

/-- A source that is not empty cannot occur at the end of the text. -/
theorem mem_occurrences_of_occursAt {phrases : List (Phrase α)} {text : List α}
    {o : Occurrence α} (hphrase : o.phrase ∈ phrases) (hne : o.phrase.source ≠ [])
    (hocc : OccursAt o.phrase.source text o.place) : o ∈ occurrences phrases text := by
  have hpos : 0 < o.phrase.source.length := List.length_pos_of_ne_nil hne
  have hle := hocc.add_length_le hne
  exact mem_occurrences.2 ⟨hphrase, by omega, hocc⟩

/-- The first occurrence comes before the second: its phrase comes before the other in the list, or
is at the same position there and the place is an earlier one. -/
def Occurrence.Before (phrases : List (Phrase α)) (o p : Occurrence α) : Prop :=
  phrases.idxOf o.phrase < phrases.idxOf p.phrase ∨
    phrases.idxOf o.phrase = phrases.idxOf p.phrase ∧ o.place < p.place

namespace Occurrence.Before

theorem wellFounded (phrases : List (Phrase α)) : WellFounded (Before phrases) := by
  let key (o : Occurrence α) : Nat × Nat := (phrases.idxOf o.phrase, o.place)
  have hkey : WellFounded (InvImage (Prod.Lex (· < ·) (· < ·)) key) :=
    InvImage.wf key (Prod.lex Nat.lt_wfRel Nat.lt_wfRel).wf
  refine Subrelation.wf ?_ hkey
  intro o p h
  exact Prod.lex_def.2 h

theorem asymm {phrases : List (Phrase α)} {o p : Occurrence α} (h : o.Before phrases p) :
    ¬ p.Before phrases o := by
  unfold Before at *
  omega

end Occurrence.Before

/-- The occurrences are listed by phrase and then by place. -/
theorem pairwise_occurrences {phrases : List (Phrase α)} (hnodup : phrases.Nodup)
    (text : List α) : (occurrences phrases text).Pairwise (Occurrence.Before phrases) := by
  rw [occurrences, List.pairwise_flatMap]
  constructor
  · intro phrase _
    rw [occurrencesOf, List.pairwise_map]
    exact (List.pairwise_lt_range.filter _).imp fun h => .inr ⟨rfl, h⟩
  · rw [List.pairwise_iff_getElem]
    intro i j hi hj hij o ho p hp
    obtain ⟨place, -, rfl⟩ := List.mem_map.1 ho
    obtain ⟨place', -, rfl⟩ := List.mem_map.1 hp
    refine .inl ?_
    simpa only [hnodup.idxOf_getElem] using hij

theorem length_occurrences_cons (phrase : Phrase α) (phrases : List (Phrase α)) (text : List α) :
    (occurrences (phrase :: phrases) text).length =
      (places phrase.source text).length + (occurrences phrases text).length := by
  rw [occurrences, List.flatMap_cons, List.length_append, occurrencesOf, List.length_map]
  rfl

theorem length_occurrences_append_le (phrases : List (Phrase α)) (before after : List α) :
    (occurrences phrases before).length + (occurrences phrases after).length ≤
      (occurrences phrases (before ++ after)).length := by
  induction phrases with
  | nil => rfl
  | cons phrase phrases ih =>
    have := length_places_append_le phrase.source before after
    rw [length_occurrences_cons, length_occurrences_cons, length_occurrences_cons]
    omega

/-- The source of a phrase has an occurrence of that phrase. -/
theorem one_le_length_occurrences {phrases : List (Phrase α)} {phrase : Phrase α}
    (hmem : phrase ∈ phrases) (hne : phrase.source ≠ []) :
    1 ≤ (occurrences phrases phrase.source).length := by
  have h : ⟨phrase, 0⟩ ∈ occurrences phrases phrase.source :=
    mem_occurrences.2 ⟨hmem, List.length_pos_of_ne_nil hne, List.prefix_rfl⟩
  exact List.length_pos_of_mem h

end Phrasebook
