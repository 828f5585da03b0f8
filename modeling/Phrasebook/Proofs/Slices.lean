import Phrasebook.Proofs.Inert
import Phrasebook.Proofs.Locality
import Phrasebook.Proofs.Octets
import Phrasebook.Proofs.Reachable
/-!
# Slices at character boundaries

A pass over stored octets knows the occurrences of a phrase by their places, and takes what lies
between them out of the text as slices. A slice that begins or ends inside a character cannot be
taken. This module writes the pass down with places and slices, where taking one can fail, and shows
that it never does: UTF-8 synchronises itself, so that octets which begin like a character are found
only where a character begins.

## Main definitions

* `IsBoundary`: a character begins at the place, or the octets do or end there.
* `slice?`: the octets between two boundaries.
* `translateBySlices?`: the rendition of a text by places and slices.
* `straddlesAt`: the test of an inserted target, with overlaps at given places only.

## Main results

* `Utf8.exists_eq_append_of_encode_eq`: a first octet parts the text where it parts its octets.
* `segmentsBySlices?_encode`: no slice of a pass fails, and it cuts where the pass over characters
  does.
* `straddlesAt_encode`: an overlap of the octets of two words is one of the words.
* `PhraseTable.Reachable.slices_at_boundaries`: all of this for a table and a text.

## Implementation notes

Boundaries are told by what an octet is, and not by a text that the octets encode, so that `slice?`
can be applied to any octets. That the two agree on a text is `Utf8.isBoundary_encode_iff`.
-/

namespace Phrasebook

/-- A character begins at the place, or it is one of the two ends of the octets. -/
def IsBoundary (octets : List UInt8) (place : Nat) : Prop :=
  place = 0 ∨ place = octets.length ∨ ∃ b ∈ octets[place]?, b.IsUTF8FirstByte

instance (octets : List UInt8) (place : Nat) : Decidable (IsBoundary octets place) :=
  inferInstanceAs (Decidable (_ ∨ _ ∨ _))

/-- The octets from one boundary to a later one. -/
def slice? (octets : List UInt8) (start stop : Nat) : Option (List UInt8) :=
  if start ≤ stop ∧ IsBoundary octets start ∧ IsBoundary octets stop then
    some ((octets.take stop).drop start)
  else
    none

/-- No slice ends inside a character. -/
example : slice? (Utf8.encode ['本']) 0 1 = none := by decide

/-! ### The pass by places and slices -/

/-- The places where `needle` is found, from left to right, each match beginning where the one
before it has ended. The first of the octets has the place `start`. -/
def matchPlaces (needle : List UInt8) (start : Nat) (octets : List UInt8) : List Nat :=
  match octets with
  | [] => []
  | a :: rest =>
    if needle ≠ [] ∧ needle.isPrefixOf (a :: rest) then
      start :: matchPlaces needle (start + needle.length) (rest.drop (needle.length - 1))
    else
      matchPlaces needle (start + 1) rest
  termination_by octets.length
  decreasing_by all_goals simp +arith [List.length_drop]

/-- The places at which an open piece is sliced: where matches begin and end, and its own ends. -/
def slicePlaces (needle octets : List UInt8) : List Nat :=
  0 :: octets.length ::
    (matchPlaces needle 0 octets).flatMap fun place => [place, place + needle.length]

/-- The open piece between two places. There is none where they are one. -/
def openSlice? (octets : List UInt8) (start stop : Nat) : Option (List (Segment UInt8)) :=
  if start < stop then (slice? octets start stop).map fun part => [.untouched part] else some []

/-- The pieces of the octets from `last` on, which are cut where the matches of the phrase begin. -/
def cutAt? (phrase : Phrase UInt8) (octets : List UInt8) (last : Nat) :
    List Nat → Option (List (Segment UInt8))
  | [] => openSlice? octets last octets.length
  | place :: places => do
    let before ← openSlice? octets last place
    let after ← cutAt? phrase octets (place + phrase.source.length) places
    return before ++ .replaced phrase :: after

/-- The pieces that a phrase makes of an open one. One without a match stays as it is. -/
def cutBySlices? (phrase : Phrase UInt8) (octets : List UInt8) : Option (List (Segment UInt8)) :=
  if occursIn phrase.source octets then
    cutAt? phrase octets 0 (matchPlaces phrase.source 0 octets)
  else
    some [.untouched octets]

/-- The pieces that a phrase makes of one piece. What has been replaced is settled. -/
def cutPiece? (phrase : Phrase UInt8) : Segment UInt8 → Option (List (Segment UInt8))
  | .untouched octets => cutBySlices? phrase octets
  | .replaced done => some [.replaced done]

/-- `refine` by places and slices. -/
def refineBySlices? (pieces : List (Segment UInt8)) (phrase : Phrase UInt8) :
    Option (List (Segment UInt8)) :=
  (pieces.mapM (cutPiece? phrase)).map List.flatten

/-- `segments` by places and slices. -/
def segmentsBySlices? (phrases : List (Phrase UInt8)) (octets : List UInt8) :
    Option (List (Segment UInt8)) :=
  phrases.foldlM refineBySlices? [.untouched octets]

/-- What is reported of the pieces that a list of phrases has made of a text. -/
def Rendition.ofSegments {α : Type} [DecidableEq α] (phrases : List (Phrase α))
    (pieces : List (Segment α)) : Rendition α :=
  { text := pieces.flatMap Segment.rendered
    substitutions := pieces.countP fun piece => decide piece.IsInserted
    phrasesFound := phrases.countP fun phrase => pieces.any (· = .replaced phrase) }

theorem translate_eq_ofSegments {α : Type} [DecidableEq α] (phrases : List (Phrase α))
    (text : List α) : translate phrases text = .ofSegments phrases (segments phrases text) := by
  rw [Rendition.ofSegments, ← substitutions_eq_countP, translate, Rendition.mk.injEq]
  refine ⟨rfl, rfl, List.countP_congr fun phrase _ => ?_⟩
  rw [decide_eq_true_eq, List.any_eq_true]
  simp only [decide_eq_true_eq, exists_eq_right]

/-- The rendition of a text by places and slices, if every slice could be taken. -/
def translateBySlices? (phrases : List (Phrase UInt8)) (octets : List UInt8) :
    Option (Rendition UInt8) :=
  (segmentsBySlices? phrases octets).map (.ofSegments phrases)

/-! ### UTF-8 synchronises itself -/

namespace Utf8

theorem encode_nil : encode [] = [] :=
  rfl

theorem encode_ne_nil {text : Text} (h : text ≠ []) : encode text ≠ [] :=
  mt encode_eq_nil_iff.1 h

theorem source_map_encode_ne_nil {phrases : List (Phrase Char)} (h : ∀ p ∈ phrases, p.source ≠ []) :
    ∀ p ∈ phrases.map (Phrase.map encode), p.source ≠ [] :=
  List.forall_mem_map.2 fun p hp => encode_ne_nil (h p hp)

theorem isUTF8FirstByte_of_encode_eq {text : Text} {b : UInt8} {rest : List UInt8}
    (h : encode text = b :: rest) : b.IsUTF8FirstByte := by
  cases text with
  | nil => cases h
  | cons c text =>
    obtain ⟨first, others, hc, hfirst, -⟩ := exists_encodeChar_eq c
    rw [encode_cons, hc, List.cons_append] at h
    exact (List.cons.inj h).1 ▸ hfirst

/-- **A first octet parts the text where it parts its octets.** -/
theorem exists_eq_append_of_encode_eq {text : Text} {front back : List UInt8} {b : UInt8}
    (h : encode text = front ++ b :: back) (hb : b.IsUTF8FirstByte) :
    ∃ before after, text = before ++ after ∧ encode before = front ∧ encode after = b :: back := by
  induction text generalizing front with
  | nil => exact absurd h.symm (List.append_ne_nil_of_right_ne_nil front (List.cons_ne_nil b back))
  | cons c text ih =>
    have hchar := h
    rw [encode_cons] at hchar
    rcases List.append_eq_append_iff.1 hchar with ⟨middle, hfront, htext⟩ | ⟨middle, hc, hback⟩
    · -- the place is after the first character
      obtain ⟨before, after, rfl, rfl, hafter⟩ := ih htext
      exact ⟨c :: before, after, rfl, by rw [hfront, encode_cons], hafter⟩
    · -- or in it, and then before it, as only one of its octets can begin a character
      cases front with
      | nil => exact ⟨[], c :: text, rfl, rfl, h⟩
      | cons a front =>
        cases middle with
        | nil =>
          rw [List.append_nil] at hc
          exact ⟨[c], text, rfl, by rw [← hc, encode, List.flatMap_singleton], hback.symm⟩
        | cons b' middle =>
          obtain ⟨first, others, hc', -, hothers⟩ := exists_encodeChar_eq c
          rw [hc', List.cons_append] at hc
          refine absurd hb (hothers b ?_)
          rw [(List.cons.inj hc).2, (List.cons.inj hback).1]
          exact List.mem_append_right _ List.mem_cons_self

/-- The boundaries of a text are the places where one of its beginnings ends. -/
theorem isBoundary_encode_iff {text : Text} {place : Nat} :
    IsBoundary (encode text) place ↔
      ∃ front back, text = front ++ back ∧ place = (encode front).length := by
  constructor
  · rintro (rfl | rfl | ⟨b, hmem, hb⟩)
    · exact ⟨[], text, rfl, rfl⟩
    · exact ⟨text, [], (List.append_nil text).symm, rfl⟩
    · obtain ⟨hlt, rfl⟩ := List.getElem?_eq_some_iff.1 hmem
      have hparts : encode text =
          (encode text).take place ++ (encode text)[place] :: (encode text).drop (place + 1) := by
        rw [← List.drop_eq_getElem_cons hlt, List.take_append_drop]
      obtain ⟨front, back, htext, hfront, -⟩ := exists_eq_append_of_encode_eq hparts hb
      exact ⟨front, back, htext, by rw [hfront, List.length_take_of_le hlt.le]⟩
  · rintro ⟨front, back, rfl, rfl⟩
    cases back with
    | nil => exact .inr (.inl (by rw [List.append_nil]))
    | cons c back =>
      obtain ⟨first, others, hc, hfirst, -⟩ := exists_encodeChar_eq c
      refine .inr (.inr ⟨first, ?_, hfirst⟩)
      rw [encode_append, encode_cons, hc, List.cons_append,
        List.getElem?_append_right (Nat.le_refl _), Nat.sub_self]
      rfl

theorem isBoundary_encode_append (front back : Text) :
    IsBoundary (encode (front ++ back)) (encode front).length :=
  isBoundary_encode_iff.2 ⟨front, back, rfl, rfl⟩

/-- Where the octets of a word stand in those of a text, the word stands in the text. -/
theorem exists_eq_append_of_encode_eq_append {word text : Text} (hne : word ≠ [])
    {front back : List UInt8} (h : encode text = front ++ (encode word ++ back)) :
    ∃ before after, text = before ++ (word ++ after) ∧ encode before = front := by
  obtain ⟨b, rest, hword⟩ := List.exists_cons_of_ne_nil (encode_ne_nil hne)
  rw [hword, List.cons_append] at h
  obtain ⟨before, others, rfl, hbefore, hothers⟩ :=
    exists_eq_append_of_encode_eq h (isUTF8FirstByte_of_encode_eq hword)
  have hpre : encode word <+: encode others := ⟨back, by rw [hword, List.cons_append, hothers]⟩
  obtain ⟨after, rfl⟩ := encode_prefix_iff.1 hpre
  exact ⟨before, after, rfl, hbefore⟩

/-- The octets of a word occur in those of a text exactly if the word occurs in the text. -/
theorem occursIn_encode (word text : Text) :
    occursIn (encode word) (encode text) = occursIn word text := by
  rw [Bool.eq_iff_iff, occursIn_iff_isInfix, occursIn_iff_isInfix]
  constructor
  · rintro ⟨front, back, h⟩
    by_cases hne : word = []
    · rw [hne]
      exact List.nil_infix
    · rw [List.append_assoc] at h
      obtain ⟨before, after, rfl, -⟩ := exists_eq_append_of_encode_eq_append hne h.symm
      exact ⟨before, after, List.append_assoc before word after⟩
  · rintro ⟨before, after, rfl⟩
    exact ⟨encode before, encode after, by rw [encode_append, encode_append]⟩

end Utf8

open Utf8

theorem slice?_encode (front middle back : Text) :
    slice? (encode (front ++ (middle ++ back))) (encode front).length
      (encode (front ++ middle)).length = some (encode middle) := by
  have hstart := isBoundary_encode_append front (middle ++ back)
  have hstop := isBoundary_encode_append (front ++ middle) back
  have hle : (encode front).length ≤ (encode (front ++ middle)).length := by
    rw [encode_append, List.length_append]
    exact Nat.le_add_right _ _
  rw [List.append_assoc] at hstop
  rw [slice?, if_pos ⟨hle, hstart, hstop⟩, ← List.append_assoc, encode_append (front ++ middle),
    List.take_left, encode_append, List.drop_left]

/-! ### The places of matches -/

section

variable {needle : List UInt8}

theorem matchPlaces_append (hne : needle ≠ []) (start : Nat) (rest : List UInt8) :
    matchPlaces needle start (needle ++ rest) =
      start :: matchPlaces needle (start + needle.length) rest := by
  obtain ⟨a, tail, rfl⟩ := List.exists_cons_of_ne_nil hne
  rw [List.cons_append, matchPlaces, if_pos]
  · rw [List.length_cons, Nat.add_sub_cancel, List.drop_left]
  · exact ⟨hne, List.isPrefixOf_iff_prefix.2 (List.prefix_append (a :: tail) rest)⟩

theorem matchPlaces_cons_of_not {start : Nat} {a : UInt8} {rest : List UInt8}
    (h : ¬ needle <+: a :: rest) :
    matchPlaces needle start (a :: rest) = matchPlaces needle (start + 1) rest := by
  rw [matchPlaces, if_neg]
  rintro ⟨-, hpre⟩
  exact h (List.isPrefixOf_iff_prefix.1 hpre)

/-- At the place of a match, the needle stands. -/
theorem exists_of_mem_matchPlaces {start place : Nat} {octets : List UInt8}
    (h : place ∈ matchPlaces needle start octets) :
    ∃ before after, octets = before ++ (needle ++ after) ∧ place = start + before.length := by
  fun_induction matchPlaces needle start octets with
  | case1 => cases h
  | case2 start a rest hpre ih =>
    obtain ⟨after, hafter⟩ := List.isPrefixOf_iff_prefix.1 hpre.2
    rcases List.mem_cons.1 h with rfl | hmem
    · exact ⟨[], after, hafter.symm, rfl⟩
    · obtain ⟨before, after', hrest, hplace⟩ := ih hmem
      rw [drop_length_sub_one hpre.1 a rest, ← hafter, List.drop_left] at hrest
      refine ⟨needle ++ before, after', ?_, ?_⟩
      · rw [← hafter, hrest, List.append_assoc]
      · rw [hplace, List.length_append, Nat.add_assoc]
  | case3 start a rest hpre ih =>
    obtain ⟨before, after, rfl, rfl⟩ := ih h
    exact ⟨a :: before, after, rfl, by rw [List.length_cons]; omega⟩

end

variable {phrase : Phrase Char}

theorem matchPlaces_encode_others {word : Text} (hne : word ≠ []) {others after : List UInt8}
    (h : ∀ b ∈ others, ¬ b.IsUTF8FirstByte) (start : Nat) :
    matchPlaces (encode word) start (others ++ after) =
      matchPlaces (encode word) (start + others.length) after := by
  induction others generalizing start with
  | nil => rfl
  | cons b others ih =>
    rw [List.cons_append, matchPlaces_cons_of_not, ih fun b hb => h b (List.mem_cons_of_mem _ hb),
      List.length_cons, Nat.add_assoc, Nat.add_comm 1]
    intro hpre
    obtain ⟨first, rest, hword⟩ := List.exists_cons_of_ne_nil (encode_ne_nil hne)
    rw [hword, List.cons_prefix_cons] at hpre
    exact h b List.mem_cons_self (hpre.1 ▸ isUTF8FirstByte_of_encode_eq hword)

/-- Where a word does not begin a text, the search goes on at the next character. -/
theorem matchPlaces_encode_cons_of_not {word : Text} (hne : word ≠ []) {c : Char} {rest : Text}
    (h : ¬ word <+: c :: rest) (start : Nat) :
    matchPlaces (encode word) start (encode (c :: rest)) =
      matchPlaces (encode word) (start + (encode [c]).length) (encode rest) := by
  obtain ⟨first, others, hc, -, hothers⟩ := exists_encodeChar_eq c
  have hpre : ¬ encode word <+: encode (c :: rest) := mt encode_prefix_iff.1 h
  have hone : encode [c] = first :: others := by rw [encode, List.flatMap_singleton, hc]
  rw [encode_cons, hc, List.cons_append] at hpre ⊢
  rw [matchPlaces_cons_of_not hpre, matchPlaces_encode_others hne hothers, hone, List.length_cons,
    Nat.add_assoc, Nat.add_comm 1]

/-! ### No slice fails -/

namespace Segment

theorem foldr_push_append_replaced {α : Type} (front : List α) (pieces rest : List (Segment α))
    (done : Phrase α) :
    front.foldr push (pieces ++ replaced done :: rest) =
      front.foldr push pieces ++ replaced done :: rest := by
  induction front with
  | nil => rfl
  | cons a front ih =>
    rw [List.foldr_cons, ih, List.foldr_cons]
    cases front.foldr push pieces with
    | nil => rfl
    | cons piece more => cases piece <;> rfl

end Segment

open Segment

private theorem length_encode_append (front gap word : Text) :
    (encode (front ++ (gap ++ word))).length =
      (encode (front ++ gap)).length + (encode word).length := by
  rw [← List.append_assoc, encode_append, List.length_append]

theorem openSlice?_encode (front middle back : Text) :
    openSlice? (encode (front ++ (middle ++ back))) (encode front).length
      (encode (front ++ middle)).length =
        some ((middle.foldr push []).map (Segment.map encode)) := by
  rw [openSlice?]
  by_cases hne : middle = []
  · rw [hne, List.append_nil, if_neg (Nat.lt_irrefl _)]
    rfl
  · have hpos := List.length_pos_of_ne_nil (encode_ne_nil hne)
    rw [if_pos, slice?_encode, foldr_push_of_push (fun _ => rfl) hne]
    · rfl
    · rw [encode_append, List.length_append]
      omega

/-- The loop over the matches, with the last one ending where `front` does. The characters of `gap`
have been searched since. -/
theorem cutAt?_encode (hne : phrase.source ≠ []) (front gap rest : Text) :
    cutAt? (phrase.map encode) (encode (front ++ (gap ++ rest))) (encode front).length
      (matchPlaces (encode phrase.source) (encode (front ++ gap)).length (encode rest)) =
        some ((gap.foldr push (cut phrase rest)).map (Segment.map encode)) := by
  fun_induction cut phrase rest generalizing front gap with
  | case1 =>
    have h := openSlice?_encode front gap []
    rw [List.append_nil] at h ⊢
    rwa [encode_nil, matchPlaces, cutAt?]
  | case2 c rest h ih =>
    obtain ⟨after, hafter⟩ := List.isPrefixOf_iff_prefix.1 h.2
    have hdrop : rest.drop (phrase.source.length - 1) = after := by
      rw [drop_length_sub_one hne c rest, ← hafter, List.drop_left]
    rw [hdrop] at ih ⊢
    have hrest := ih (front ++ (gap ++ phrase.source)) []
    rw [List.append_nil, List.append_assoc, List.nil_append, List.append_assoc,
      length_encode_append] at hrest
    have hpush := foldr_push_append_replaced gap [] (cut phrase after) phrase
    rw [List.nil_append] at hpush
    rw [hpush, List.map_append, ← hafter, encode_append phrase.source,
      matchPlaces_append (encode_ne_nil hne), cutAt?, openSlice?_encode]
    simp only [Phrase.map] at hrest ⊢
    rw [hrest]
    rfl
  | case3 c rest h ih =>
    have hnot : ¬ phrase.source <+: c :: rest := fun hpre =>
      h ⟨hne, List.isPrefixOf_iff_prefix.2 hpre⟩
    have hrest := ih front (gap ++ [c])
    rw [List.foldr_append, List.append_assoc gap, length_encode_append] at hrest
    rw [matchPlaces_encode_cons_of_not hne hnot]
    exact hrest

section

variable {α : Type} [DecidableEq α]

theorem cut_eq_singleton {phrase : Phrase α} {text : List α} (h : ¬ phrase.source <:+: text)
    (htext : text ≠ []) : cut phrase text = [untouched text] := by
  have hpush : cut phrase text = text.foldr push [] := by
    clear htext
    induction text with
    | nil => rw [cut, List.foldr_nil]
    | cons a text ih =>
      rw [List.infix_cons_iff, not_or] at h
      rw [cut_cons_of_not h.1, ih h.2, List.foldr_cons]
  rw [hpush, foldr_push_of_push (fun _ => rfl) htext]

/-- No piece is empty. -/
theorem ne_nil_of_untouched_mem_cut {phrase : Phrase α} {text part : List α}
    (h : untouched part ∈ cut phrase text) : part ≠ [] := by
  fun_induction cut phrase text with
  | case1 => cases h
  | case2 a rest hpre ih =>
    rcases List.mem_cons.1 h with heq | hmem
    · cases heq
    · exact ih hmem
  | case3 a rest hpre ih =>
    rcases untouched_mem_push h with hmem | rfl | ⟨first, more, -, rfl⟩
    · exact ih hmem
    · exact List.cons_ne_nil a []
    · exact List.cons_ne_nil a first

end

/-- **A phrase cuts an open text by slices where it cuts its characters.** The empty text is not cut
by slices at all. -/
theorem cutBySlices?_encode (hne : phrase.source ≠ []) {text : Text} (htext : text ≠ []) :
    cutBySlices? (phrase.map encode) (encode text) =
      some ((cut phrase text).map (Segment.map encode)) := by
  rw [cutBySlices?, Phrase.map, occursIn_encode]
  split
  · exact cutAt?_encode hne [] [] text
  · rename_i hnot
    rw [occursIn_iff_isInfix] at hnot
    rw [cut_eq_singleton hnot htext]
    rfl

theorem refineBySlices?_cons {phrase : Phrase UInt8} {piece : Segment UInt8}
    {pieces parts rest : List (Segment UInt8)} (hpiece : cutPiece? phrase piece = some parts)
    (hrest : refineBySlices? pieces phrase = some rest) :
    refineBySlices? (piece :: pieces) phrase = some (parts ++ rest) := by
  rw [refineBySlices?, Option.map_eq_some_iff] at hrest
  obtain ⟨others, hothers, rfl⟩ := hrest
  rw [refineBySlices?, List.mapM_cons, hpiece, hothers]
  rfl

theorem refineBySlices?_encode (hne : phrase.source ≠ []) {pieces : List (Segment Char)}
    (h : ∀ part, .untouched part ∈ pieces → part ≠ []) :
    refineBySlices? (pieces.map (Segment.map encode)) (phrase.map encode) =
      some ((refine pieces phrase).map (Segment.map encode)) := by
  induction pieces with
  | nil => rfl
  | cons piece pieces ih =>
    have hrest := ih fun part hpart => h part (List.mem_cons_of_mem _ hpart)
    cases piece with
    | untouched text =>
      rw [refine_untouched_cons, List.map_append]
      exact refineBySlices?_cons (cutBySlices?_encode hne (h text List.mem_cons_self)) hrest
    | replaced done =>
      have hpiece : cutPiece? (phrase.map encode) (Segment.map encode (.replaced done)) =
          some [Segment.map encode (.replaced done)] := rfl
      rw [refine_replaced_cons]
      exact refineBySlices?_cons hpiece hrest

/-- **No slice of a pass fails**, and the pass cuts where the pass over characters does. -/
theorem segmentsBySlices?_encode {phrases : List (Phrase Char)} (h : ∀ p ∈ phrases, p.source ≠ [])
    {text : Text} (htext : text ≠ []) :
    segmentsBySlices? (phrases.map (Phrase.map encode)) (encode text) =
      some ((segments phrases text).map (Segment.map encode)) := by
  -- open pieces are never empty, and so every one of them is cut as `cut` does
  have hfold (pieces : List (Segment Char)) (hopen : ∀ part, .untouched part ∈ pieces → part ≠ []) :
      (phrases.map (Phrase.map encode)).foldlM refineBySlices? (pieces.map (Segment.map encode)) =
        some ((phrases.foldl refine pieces).map (Segment.map encode)) := by
    induction phrases generalizing pieces with
    | nil => rfl
    | cons phrase phrases ih =>
      rw [List.map_cons, List.foldlM_cons,
        refineBySlices?_encode (h phrase List.mem_cons_self) hopen]
      refine ih (fun p hp => h p (List.mem_cons_of_mem _ hp)) _ fun part hpart => ?_
      rcases mem_refine.1 hpart with ⟨whole, -, hcut⟩ | ⟨done, heq, -⟩
      · exact ne_nil_of_untouched_mem_cut hcut
      · cases heq
  refine hfold [.untouched text] fun part hpart => ?_
  rw [untouched.inj (List.mem_singleton.1 hpart)]
  exact htext

theorem segmentsBySlices?_nil {phrases : List (Phrase UInt8)} (h : ∀ p ∈ phrases, p.source ≠ []) :
    segmentsBySlices? phrases [] = some [.untouched []] := by
  rw [segmentsBySlices?]
  induction phrases with
  | nil => rfl
  | cons phrase phrases ih =>
    have hnot : ¬ occursIn phrase.source ([] : List UInt8) = true := by
      rw [occursIn_iff_isInfix, List.infix_nil]
      exact h phrase List.mem_cons_self
    have hpiece : cutPiece? phrase (.untouched []) = some [.untouched []] := by
      rw [cutPiece?, cutBySlices?, if_neg hnot]
    rw [List.foldlM_cons, refineBySlices?_cons hpiece rfl]
    exact ih fun p hp => h p (List.mem_cons_of_mem _ hp)

/-- The pieces of a pass by slices are pieces of the text, octet by octet. -/
theorem exists_segmentsBySlices?_eq {phrases : List (Phrase Char)}
    (h : ∀ p ∈ phrases, p.source ≠ []) (text : Text) :
    ∃ pieces : List (Segment Char), pieces.flatMap given = text ∧
      segmentsBySlices? (phrases.map (Phrase.map encode)) (encode text) =
        some (pieces.map (Segment.map encode)) := by
  by_cases htext : text = []
  · refine ⟨[.untouched []], by rw [htext]; rfl, ?_⟩
    rw [htext, encode_nil, segmentsBySlices?_nil (source_map_encode_ne_nil h)]
    rfl
  · exact ⟨_, flatMap_given_segments phrases text, segmentsBySlices?_encode h htext⟩

/-- **The rendition by slices is that of the characters.** -/
theorem translateBySlices?_encode {phrases : List (Phrase Char)} (h : ∀ p ∈ phrases, p.source ≠ [])
    (text : Text) :
    translateBySlices? (phrases.map (Phrase.map encode)) (encode text) =
      some { text := encode (translate phrases text).text
             substitutions := (translate phrases text).substitutions
             phrasesFound := (translate phrases text).phrasesFound } := by
  have hne := source_map_encode_ne_nil h
  rw [translateBySlices?, ← translate_encode h]
  by_cases htext : text = []
  · rw [htext, encode_nil, segmentsBySlices?_nil hne,
      translate_of_not_infix fun p _ hp hin => hp (List.infix_nil.1 hin)]
    have hopen : ¬ (untouched ([] : List UInt8)).IsInserted := id
    simp [Rendition.ofSegments, rendered, hopen]
  · rw [segmentsBySlices?_encode h htext, translate_eq_ofSegments, segments_encode h]
    rfl

/-! ### Where the slices are -/

theorem flatMap_given_map_encode (pieces : List (Segment Char)) :
    (pieces.map (Segment.map encode)).flatMap given = encode (pieces.flatMap given) := by
  rw [encode, List.flatMap_assoc, List.flatMap_map]
  congr 1
  funext piece
  cases piece <;> rfl

/-- A place where an open text is sliced is the end of one of its beginnings. -/
theorem exists_of_mem_slicePlaces {word text : Text} (hne : word ≠ []) {place : Nat}
    (h : place ∈ slicePlaces (encode word) (encode text)) :
    ∃ before after, text = before ++ after ∧ place = (encode before).length := by
  rcases List.mem_cons.1 h with rfl | h
  · exact ⟨[], text, rfl, rfl⟩
  rcases List.mem_cons.1 h with rfl | h
  · exact ⟨text, [], (List.append_nil text).symm, rfl⟩
  obtain ⟨start, hstart, hplace⟩ := List.mem_flatMap.1 h
  obtain ⟨front, back, htext, rfl⟩ := exists_of_mem_matchPlaces hstart
  obtain ⟨before, after, rfl, rfl⟩ := exists_eq_append_of_encode_eq_append hne htext
  rw [Nat.zero_add, List.mem_pair] at hplace
  rcases hplace with rfl | rfl
  · exact ⟨before, word ++ after, rfl, rfl⟩
  · exact ⟨before ++ word, after, (List.append_assoc before word after).symm,
      by rw [encode_append, List.length_append]⟩

/-- **The places at which an open piece is sliced are boundaries of the text.** -/
theorem isBoundary_of_mem_slicePlaces {pieces : List (Segment Char)} {word : Text} (hne : word ≠ [])
    {front back : List (Segment UInt8)} {part : List UInt8}
    (hpieces : pieces.map (Segment.map encode) = front ++ .untouched part :: back) {place : Nat}
    (h : place ∈ slicePlaces (encode word) part) :
    IsBoundary (encode (pieces.flatMap given)) ((front.flatMap given).length + place) := by
  obtain ⟨before, others, rfl, rfl, hothers⟩ := List.map_eq_append_iff.1 hpieces
  obtain ⟨piece, after, rfl, hpiece, -⟩ := List.map_eq_cons_iff.1 hothers
  cases piece with
  | replaced done => cases hpiece
  | untouched text =>
    cases hpiece
    obtain ⟨x, y, rfl, rfl⟩ := exists_of_mem_slicePlaces hne h
    rw [flatMap_given_map_encode, ← List.length_append, ← encode_append, isBoundary_encode_iff]
    refine ⟨before.flatMap given ++ x, y ++ after.flatMap given, ?_, rfl⟩
    rw [List.flatMap_append, List.flatMap_cons, given, List.append_assoc, List.append_assoc]

/-! ### The test of an inserted target -/

/-- The test of an inserted target, with overlaps at the places `tried` of the target only. -/
def straddlesAt (tried : List Nat) (target source : List UInt8) : Bool :=
  occursIn target source ||
    tried.any (fun place => (target.drop place).isPrefixOf source) ||
    tried.any fun place => (target.take place).isSuffixOf source

/-- The places between two octets. -/
def innerPlaces (octets : List UInt8) : List Nat :=
  (List.range octets.length).filter fun place => 0 < place

theorem mem_innerPlaces {octets : List UInt8} {place : Nat} :
    place ∈ innerPlaces octets ↔ 0 < place ∧ place < octets.length := by
  rw [innerPlaces, List.mem_filter, List.mem_range, decide_eq_true_eq, and_comm]

section

variable {target source : Text} {place : Nat}

/-- An end of the octets of the target begins those of the source. -/
theorem exists_overlap_of_drop_prefix (hpos : 0 < place) (hlt : place < (encode target).length)
    (h : (encode target).drop place <+: encode source) :
    ∃ front back after, front ≠ [] ∧ back ≠ [] ∧ target = front ++ back ∧
      source = back ++ after := by
  obtain ⟨octets, hsource⟩ := h
  -- the end begins as the source does, and so with a character
  obtain ⟨b, rest, hdrop⟩ := List.exists_cons_of_ne_nil (mt List.drop_eq_nil_iff.1 hlt.not_ge)
  rw [hdrop, List.cons_append] at hsource
  have hparts : encode target = (encode target).take place ++ b :: rest := by
    rw [← hdrop, List.take_append_drop]
  obtain ⟨front, back, htarget, hfront, hback⟩ :=
    exists_eq_append_of_encode_eq hparts (isUTF8FirstByte_of_encode_eq hsource.symm)
  have hpre : encode back <+: encode source := ⟨octets, by rw [hback, List.cons_append, hsource]⟩
  obtain ⟨after, rfl⟩ := encode_prefix_iff.1 hpre
  refine ⟨front, back, after, ?_, ?_, htarget, rfl⟩
  · rintro rfl
    have hlen := congrArg List.length hfront
    rw [List.length_take_of_le hlt.le] at hlen
    exact hpos.ne hlen
  · rintro rfl
    cases hback

/-- A beginning of the octets of the target ends those of the source. -/
theorem exists_overlap_of_take_suffix (hpos : 0 < place) (hlt : place < (encode target).length)
    (h : (encode target).take place <:+ encode source) :
    ∃ front back before, front ≠ [] ∧ back ≠ [] ∧ target = front ++ back ∧
      source = before ++ front := by
  obtain ⟨octets, hsource⟩ := h
  have hne : (encode target).take place ≠ [] := by
    rw [← List.length_pos_iff, List.length_take_of_le hlt.le]
    exact hpos
  -- the beginning of the target begins with a character, in the source too
  obtain ⟨b, rest, htake⟩ := List.exists_cons_of_ne_nil hne
  have hparts : encode target = b :: (rest ++ (encode target).drop place) := by
    rw [← List.cons_append, ← htake, List.take_append_drop]
  rw [htake] at hsource
  obtain ⟨before, front, rfl, -, hfront⟩ :=
    exists_eq_append_of_encode_eq hsource.symm (isUTF8FirstByte_of_encode_eq hparts)
  have hpre : encode front <+: encode target := by
    rw [hfront, ← htake]
    exact List.take_prefix place (encode target)
  obtain ⟨back, rfl⟩ := encode_prefix_iff.1 hpre
  refine ⟨front, back, before, ?_, ?_, rfl, rfl⟩
  · rintro rfl
    cases hfront
  · rintro rfl
    have hlen := congrArg List.length (hfront.trans htake.symm)
    rw [List.append_nil] at hlen hlt
    rw [List.length_take_of_le hlt.le] at hlen
    exact hlt.ne' hlen

end

/-- **An overlap of the octets of two words is one of the words**, and so it is enough to try the
boundaries of the target. -/
theorem straddlesAt_encode {target source : Text} {tried : List Nat}
    (hinner : ∀ place ∈ tried, 0 < place ∧ place < (encode target).length)
    (hall : ∀ front back, front ≠ [] → back ≠ [] → target = front ++ back →
      (encode front).length ∈ tried) :
    straddlesAt tried (encode target) (encode source) = straddles target source := by
  rw [Bool.eq_iff_iff, straddles_iff, straddlesAt, Bool.or_eq_true, Bool.or_eq_true,
    occursIn_encode, occursIn_iff, or_assoc, List.any_eq_true, List.any_eq_true]
  refine or_congr_right (or_congr ⟨?_, ?_⟩ ⟨?_, ?_⟩)
  · rintro ⟨place, htried, hpre⟩
    obtain ⟨hpos, hlt⟩ := hinner place htried
    exact exists_overlap_of_drop_prefix hpos hlt (List.isPrefixOf_iff_prefix.1 hpre)
  · rintro ⟨front, back, after, hfront, hback, rfl, rfl⟩
    refine ⟨_, hall front back hfront hback rfl, ?_⟩
    rw [encode_append, List.drop_left, List.isPrefixOf_iff_prefix, encode_prefix_iff]
    exact List.prefix_append back after
  · rintro ⟨place, htried, hsuf⟩
    obtain ⟨hpos, hlt⟩ := hinner place htried
    exact exists_overlap_of_take_suffix hpos hlt (List.isSuffixOf_iff_suffix.1 hsuf)
  · rintro ⟨front, back, before, hfront, hback, rfl, rfl⟩
    refine ⟨_, hall front back hfront hback rfl, ?_⟩
    rw [encode_append, List.take_left, List.isSuffixOf_iff_suffix, encode_append]
    exact List.suffix_append (encode before) (encode front)

/-! ### Every table and every text -/

namespace PhraseTable

/-- **Slices never cut a character.** Whatever phrases have had their turn, the places at which the
next one slices the open pieces are boundaries of the text. So every slice of the pass can be taken,
and it returns the octets of the rendition that the characters have. Validation may try its overlaps
at boundaries only: no other overlap of the octets of two words exists. -/
theorem Reachable.slices_at_boundaries {table : PhraseTable} (h : table.Reachable) (text : Text) :
    (∀ done phrase later, table.phrases = done ++ phrase :: later →
      ∃ pieces, segmentsBySlices? (done.map (Phrase.map encode)) (encode text) = some pieces ∧
        ∀ front part back, pieces = front ++ .untouched part :: back →
          ∀ place ∈ slicePlaces (encode phrase.source) part,
            IsBoundary (encode text) ((front.flatMap given).length + place)) ∧
    translateBySlices? (table.phrases.map (Phrase.map encode)) (encode text) =
      some { text := encode (table.translate text).text
             substitutions := (table.translate text).substitutions
             phrasesFound := (table.translate text).phrasesFound } ∧
    ∀ target source : Text,
      let octets := encode target
      straddlesAt ((innerPlaces octets).filter fun place => IsBoundary octets place) octets
          (encode source) = straddles target source ∧
        straddlesAt (innerPlaces octets) octets (encode source) = straddles target source := by
  have hne := h.consistent.source_ne_nil
  refine ⟨?_, translateBySlices?_encode hne text, ?_⟩
  · intro done phrase later hphrases
    rw [hphrases] at hne
    obtain ⟨pieces, rfl, hpieces⟩ := exists_segmentsBySlices?_eq
      (fun p hp => hne p (List.mem_append_left _ hp)) text
    refine ⟨_, hpieces, fun front part back heq place hplace => ?_⟩
    exact isBoundary_of_mem_slicePlaces
      (hne phrase (List.mem_append_right _ List.mem_cons_self)) heq hplace
  · intro target source
    have hinner : ∀ front back, front ≠ [] → back ≠ [] → target = front ++ back →
        (encode front).length ∈ innerPlaces (encode target) := by
      rintro front back hfront hback rfl
      have hpos := List.length_pos_of_ne_nil (encode_ne_nil hfront)
      have hlt := List.length_pos_of_ne_nil (encode_ne_nil hback)
      rw [mem_innerPlaces, encode_append, List.length_append]
      omega
    constructor
    · refine straddlesAt_encode (fun place hplace => ?_) fun front back hfront hback htarget => ?_
      · exact mem_innerPlaces.1 (List.mem_filter.1 hplace).1
      · refine List.mem_filter.2 ⟨hinner front back hfront hback htarget, ?_⟩
        rw [decide_eq_true_eq, htarget]
        exact isBoundary_encode_append front back
    · exact straddlesAt_encode (fun place hplace => mem_innerPlaces.1 hplace) hinner

/-- Characters of three octets each, with one source inside the other. -/
def multibyte : List (Phrase Char) :=
  [⟨['日', '本'], ['に', 'ほ', 'ん']⟩, ⟨['本'], ['ほ', 'ん']⟩]

/-- The longer source leaves open what stands before it and, from the ninth octet on, what stands
after it. The shorter one is found in both. -/
theorem slices_at_boundaries_multibyte :
    ofList multibyte = .ok ⟨multibyte⟩ ∧
      let octets := encode ['本', '日', '本', 'の', '本']
      segmentsBySlices? [⟨encode ['日', '本'], encode ['に', 'ほ', 'ん']⟩] octets =
          some [.untouched (encode ['本']),
            .replaced ⟨encode ['日', '本'], encode ['に', 'ほ', 'ん']⟩,
            .untouched (encode ['の', '本'])] ∧
        slicePlaces (encode ['本']) (encode ['の', '本']) = [0, 6, 3, 6] ∧
        (∀ place ∈ [0, 6, 3, 6], IsBoundary octets (9 + place)) ∧
        translateBySlices? (multibyte.map (Phrase.map encode)) octets =
          some ⟨encode ['ほ', 'ん', 'に', 'ほ', 'ん', 'の', 'ほ', 'ん'], 3, 2⟩ ∧
        straddlesAt (innerPlaces (encode ['ほ', 'ん'])) (encode ['ほ', 'ん']) (encode ['ん', 'か']) =
          true := by
  have hok : ofList multibyte = .ok ⟨multibyte⟩ :=
    ofList_eq_ok_of_pairwise (by decide +kernel) (by decide +kernel)
  obtain ⟨hplaces, hpass, hstraddles⟩ :=
    Reachable.slices_at_boundaries (.ofList hok) ['本', '日', '本', 'の', '本']
  have hpieces : segmentsBySlices? [⟨encode ['日', '本'], encode ['に', 'ほ', 'ん']⟩]
      (encode ['本', '日', '本', 'の', '本']) =
        some [.untouched (encode ['本']),
          .replaced ⟨encode ['日', '本'], encode ['に', 'ほ', 'ん']⟩,
          .untouched (encode ['の', '本'])] := by
    decide +kernel
  have hslices : slicePlaces (encode ['本']) (encode ['の', '本']) = [0, 6, 3, 6] := by
    decide +kernel
  refine ⟨hok, hpieces, hslices, ?_, ?_, ?_⟩
  · obtain ⟨pieces, hpieces', hbound⟩ := hplaces
      [⟨['日', '本'], ['に', 'ほ', 'ん']⟩] ⟨['本'], ['ほ', 'ん']⟩ [] rfl
    rw [← hslices]
    exact hbound [_, _] _ [] (Option.some.inj (hpieces'.symm.trans hpieces))
  · have hrendition : PhraseTable.translate ⟨multibyte⟩ ['本', '日', '本', 'の', '本'] =
        ⟨['ほ', 'ん', 'に', 'ほ', 'ん', 'の', 'ほ', 'ん'], 3, 2⟩ := by
      decide +kernel
    rw [hpass, hrendition]
  · rw [(hstraddles ['ほ', 'ん'] ['ん', 'か']).2]
    decide +kernel

end PhraseTable

end Phrasebook
