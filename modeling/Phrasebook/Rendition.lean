import Phrasebook.Phrase.Table
/-!
# One pass of a phrase table over a text

The pass takes the phrases in match order. Each phrase cuts the text that is still open at its
occurrences, from left to right and without overlap, and puts its target in their place. What has
been replaced is settled: no later phrase looks inside it or across its edge.

## Main definitions

* `Segment`: a piece of text that is still open, or one that a phrase has replaced.
* `cut`: an open text cut at the occurrences of a phrase.
* `segments`: what the whole pass makes of a text.
* `Rendition`: the new text and the two counts that are reported of it.
* `PhraseTable.translate`: the rendition of a text by a table.

## Main results

* `flatMap_given_segments`: the sources of the segments spell the text that was given.

## Implementation notes

A replaced segment keeps its phrase, so that a list of segments reads both ways: the sources of the
segments spell the text that the pass was given (`Segment.given`), and their targets spell the
text that it returns (`Segment.rendered`). The counts are read off the final segments, since no
phrase ever takes a replaced segment back.

The pass is over any alphabet. A phrase with an empty source would occur everywhere and never get
past its place, so `cut` lets it occur nowhere; no table has such a phrase.
-/

namespace Phrasebook

/-- A piece of a text in the course of a pass. -/
inductive Segment (α : Type) where
  /-- Text that later phrases may still match. -/
  | untouched (text : List α)
  /-- An occurrence of the source of `phrase`, now its target. -/
  | replaced (phrase : Phrase α)
  deriving DecidableEq, Repr

namespace Segment

variable {α : Type}

/-- The piece of the given text that the segment stands for. -/
def given : Segment α → List α
  | untouched text => text
  | replaced phrase => phrase.source

/-- The piece of the translated text that the segment stands for. -/
def rendered : Segment α → List α
  | untouched text => text
  | replaced phrase => phrase.target

/-- Put one more symbol in front of a list of segments, into its first segment if that is open. -/
def push (a : α) : List (Segment α) → List (Segment α)
  | untouched text :: rest => untouched (a :: text) :: rest
  | segments => untouched [a] :: segments

theorem flatMap_given_push (a : α) (pieces : List (Segment α)) :
    (push a pieces).flatMap given = a :: pieces.flatMap given := by
  unfold push
  split <;> simp [given]

end Segment

variable {α : Type} [DecidableEq α]

/-- Cut a text at the occurrences of a phrase, from left to right, each one beginning where the one
before it has ended. -/
def cut (phrase : Phrase α) (text : List α) : List (Segment α) :=
  match text with
  | [] => []
  | a :: rest =>
    if phrase.source ≠ [] ∧ phrase.source.isPrefixOf (a :: rest) then
      .replaced phrase :: cut phrase (rest.drop (phrase.source.length - 1))
    else
      Segment.push a (cut phrase rest)
  termination_by text.length
  decreasing_by all_goals simp +arith [List.length_drop]

theorem flatMap_given_cut (phrase : Phrase α) (text : List α) :
    (cut phrase text).flatMap Segment.given = text := by
  fun_induction cut phrase text with
  | case1 => rfl
  | case2 a rest h ih =>
    obtain ⟨hne, hpre⟩ := h
    obtain ⟨after, hafter⟩ := List.isPrefixOf_iff_prefix.1 hpre
    obtain ⟨b, tail, hs⟩ := List.exists_cons_of_ne_nil hne
    rw [hs] at hafter
    simp only [List.cons_append, List.cons.injEq] at hafter
    rw [List.flatMap_cons, ih, hs, Segment.given, hs, ← hafter.2, hafter.1]
    simp
  | case3 a rest h ih => rw [Segment.flatMap_given_push, ih]

/-- Cut every open segment at the occurrences of a phrase. -/
def refine (segments : List (Segment α)) (phrase : Phrase α) : List (Segment α) :=
  segments.flatMap fun segment =>
    match segment with
    | .untouched text => cut phrase text
    | .replaced _ => [segment]

theorem flatMap_given_refine (pieces : List (Segment α)) (phrase : Phrase α) :
    (refine pieces phrase).flatMap Segment.given = pieces.flatMap Segment.given := by
  rw [refine, List.flatMap_assoc]
  refine congrArg pieces.flatMap (funext fun piece => ?_)
  cases piece with
  | untouched text => exact flatMap_given_cut phrase text
  | replaced phrase => simp

/-- The segments that the phrases make of a text, each phrase cutting what those before it have
left open. -/
def segments (phrases : List (Phrase α)) (text : List α) : List (Segment α) :=
  phrases.foldl refine [.untouched text]

/-- A pass loses nothing of its text: each piece of it is in one segment, in its place. -/
theorem flatMap_given_segments (phrases : List (Phrase α)) (text : List α) :
    (segments phrases text).flatMap Segment.given = text := by
  have h (pieces : List (Segment α)) :
      (phrases.foldl refine pieces).flatMap Segment.given = pieces.flatMap Segment.given := by
    induction phrases generalizing pieces with
    | nil => rfl
    | cons phrase phrases ih => rw [List.foldl_cons, ih, flatMap_given_refine]
  rw [segments, h]
  simp [Segment.given]

/-- What a pass reports of a text. -/
structure Rendition (α : Type) where
  /-- The text after the pass. -/
  text : List α
  /-- How many occurrences were replaced; those of identities are not counted. -/
  substitutions : Nat
  /-- How many phrases occurred at least once, identities included. -/
  phrasesFound : Nat
  deriving DecidableEq, Repr

/-- Translate a text by a list of phrases in match order. -/
def translate (phrases : List (Phrase α)) (text : List α) : Rendition α :=
  let pieces := segments phrases text
  { text := pieces.flatMap Segment.rendered
    substitutions := pieces.countP fun piece =>
      match piece with
      | .untouched _ => false
      | .replaced phrase => !decide phrase.IsIdentity
    phrasesFound := phrases.countP fun phrase => decide (.replaced phrase ∈ pieces) }

/-- The rendition of a text by a table. -/
def PhraseTable.translate (table : PhraseTable) (text : Text) : Rendition Char :=
  Phrasebook.translate table.phrases text

end Phrasebook
