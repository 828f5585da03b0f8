import Mathlib.Data.List.Dedup
import Phrasebook.Proofs.Octets
import Phrasebook.Proofs.Reachable
import Phrasebook.Proofs.Selection
/-!
# A pass as the choice of occurrences

What a pass returns can be read off the text that it is given: choose occurrences one after the
other, in the order of the phrases and then of their places, each one if it shares no symbol with
one chosen before, and respell the chosen ones.

## Main definitions

* `respelled`: a text with its chosen occurrences replaced.

## Main results

* `translate_eq_of_select`: the rendition of a text over any alphabet, by its chosen occurrences.
* `PhraseTable.translate_octets_eq`: the same for a table and the octets of a text.

## Implementation notes

Symbols are respelled one by one: the first of a chosen occurrence becomes its target, the others
of it become nothing, and any other stays. That reads the target off the first chosen occurrence
that begins at a place; chosen occurrences share no symbol, so that there is only one.
-/

namespace Phrasebook

open Segment

variable {α : Type}

/-- What becomes of the symbol `a` at a place. -/
def respelledAt (chosen : List (Occurrence α)) : α × Nat → List α
  | (a, place) =>
    match chosen.find? fun o => decide (o.place = place) with
    | some o => o.phrase.target
    | none => if chosen.any fun o => decide (o.span.Covers place) then [] else [a]

/-- The text with every chosen occurrence replaced by the target of its phrase, and everything else
kept. -/
def respelled (chosen : List (Occurrence α)) (text : List α) : List α :=
  text.zipIdx.flatMap (respelledAt chosen)

theorem respelledAt_of_place {chosen : List (Occurrence α)} {o : Occurrence α} (ho : o ∈ chosen)
    (h : ∀ c ∈ chosen, c.place = o.place → c = o) (a : α) :
    respelledAt chosen (a, o.place) = o.phrase.target := by
  cases hfind : chosen.find? (fun c => decide (c.place = o.place)) with
  | none => exact absurd (decide_eq_true rfl) (List.find?_eq_none.1 hfind o ho)
  | some c =>
    have hplace := List.find?_some hfind
    have heq : c = o := h c (List.mem_of_find?_eq_some hfind) (of_decide_eq_true hplace)
    rw [respelledAt, hfind, heq]

theorem find?_place_eq_none {chosen : List (Occurrence α)} {place : Nat}
    (h : ∀ o ∈ chosen, o.place ≠ place) :
    chosen.find? (fun o => decide (o.place = place)) = none :=
  List.find?_eq_none.2 fun o ho hdec => h o ho (of_decide_eq_true hdec)

theorem respelledAt_of_covers {chosen : List (Occurrence α)} {place : Nat}
    (hplace : ∀ o ∈ chosen, o.place ≠ place) (h : ∃ o ∈ chosen, o.span.Covers place) (a : α) :
    respelledAt chosen (a, place) = [] := by
  rw [respelledAt, find?_place_eq_none hplace]
  exact if_pos (by simpa using h)

theorem respelledAt_of_not_covers {chosen : List (Occurrence α)} {place : Nat}
    (hne : ∀ o ∈ chosen, o.phrase.source ≠ []) (h : ∀ o ∈ chosen, ¬ o.span.Covers place) (a : α) :
    respelledAt chosen (a, place) = [a] := by
  have hplace : ∀ o ∈ chosen, o.place ≠ place := by
    rintro o ho rfl
    exact h o ho (Occurrence.covers_place (hne o ho))
  rw [respelledAt, find?_place_eq_none hplace]
  exact if_neg (by simpa using h)

/-! ### Respelling the pieces of a pass -/

/-- A stretch of the text that is clear of chosen occurrences is kept. -/
theorem flatMap_respelledAt_kept {chosen : List (Occurrence α)} {text : List α} {start : Nat}
    (hne : ∀ o ∈ chosen, o.phrase.source ≠ [])
    (h : ∀ o ∈ chosen, start + text.length ≤ o.place ∨ o.span.stop ≤ start) :
    (text.zipIdx start).flatMap (respelledAt chosen) = text := by
  induction text generalizing start with
  | nil => rfl
  | cons a text ih =>
    rw [List.length_cons] at h
    rw [List.zipIdx_cons, List.flatMap_cons, respelledAt_of_not_covers hne, ih,
      List.singleton_append]
    · intro o ho
      have := h o ho
      omega
    · intro o ho hcovers
      have hclear := h o ho
      simp only [Span.Covers, Occurrence.span, Span.ofWord] at hclear hcovers
      omega

/-- A stretch of a chosen occurrence at whose places none begins is left out. -/
theorem flatMap_respelledAt_dropped {chosen : List (Occurrence α)} {text : List α} {start : Nat}
    (hplace : ∀ o ∈ chosen, o.place < start ∨ start + text.length ≤ o.place)
    (h : text ≠ [] → ∃ o ∈ chosen, o.place < start ∧ start + text.length ≤ o.span.stop) :
    (text.zipIdx start).flatMap (respelledAt chosen) = [] := by
  rw [List.flatMap_eq_nil_iff]
  rintro ⟨a, place⟩ ha
  obtain ⟨hge, hlt, -⟩ := List.mem_zipIdx ha
  obtain ⟨o, ho, hbefore, hstop⟩ := h (List.ne_nil_of_length_pos (by omega))
  refine respelledAt_of_covers (fun c hc heq => ?_) ⟨o, ho, ?_⟩ a
  · have := hplace c hc
    omega
  · simp only [Span.Covers, Occurrence.span, Span.ofWord] at hstop ⊢
    omega

/-- A chosen occurrence is respelled to the target of its phrase. -/
theorem flatMap_respelledAt_chosen {chosen : List (Occurrence α)} {o : Occurrence α}
    (hne : ∀ o ∈ chosen, o.phrase.source ≠ []) (ho : o ∈ chosen)
    (hother : ∀ c ∈ chosen, c = o ∨ o.span.stop ≤ c.place ∨ c.span.stop ≤ o.place) :
    (o.phrase.source.zipIdx o.place).flatMap (respelledAt chosen) = o.phrase.target := by
  obtain ⟨a, tail, hs⟩ := List.exists_cons_of_ne_nil (hne o ho)
  have hstop : o.span.stop = o.place + 1 + tail.length := by
    simp only [Occurrence.span, Span.ofWord, hs, List.length_cons]
    omega
  have hplace : ∀ c ∈ chosen, c = o ∨ o.span.stop ≤ c.place ∨ c.place < o.place := by
    intro c hc
    refine (hother c hc).imp_right (.imp_right fun hbefore => ?_)
    have hpos := List.length_pos_of_ne_nil (hne c hc)
    simp only [Occurrence.span, Span.ofWord] at hbefore
    omega
  rw [hs, List.zipIdx_cons, List.flatMap_cons, respelledAt_of_place ho,
    flatMap_respelledAt_dropped, List.append_nil]
  · intro c hc
    rcases hplace c hc with rfl | hafter | hbefore
    · exact .inl (Nat.lt_succ_self _)
    · exact .inr (by omega)
    · exact .inl (by omega)
  · exact fun _ => ⟨o, ho, Nat.lt_succ_self _, Nat.le_of_eq hstop.symm⟩
  · intro c hc heq
    rcases hplace c hc with rfl | hafter | hbefore
    · rfl
    · omega
    · omega

/-- The symbols of the pieces are respelled to what the pieces render. -/
theorem flatMap_respelledAt_pieces {pieces : List (Segment α)} {start : Nat}
    {chosen : List (Occurrence α)} (hne : ∀ o ∈ chosen, o.phrase.source ≠ [])
    (htracks : Tracks chosen start pieces) :
    ((pieces.flatMap given).zipIdx start).flatMap (respelledAt chosen) =
      pieces.flatMap rendered := by
  induction pieces generalizing start with
  | nil => rfl
  | cons piece rest ih =>
    rw [List.flatMap_cons, List.zipIdx_append, List.flatMap_append, List.flatMap_cons]
    cases piece with
    | untouched text =>
      have hkept : (text.zipIdx start).flatMap (respelledAt chosen) = text :=
        flatMap_respelledAt_kept hne htracks.clear
      rw [given, rendered, hkept, ih htracks.of_untouched]
    | replaced phrase =>
      have hfirst : (phrase.source.zipIdx start).flatMap (respelledAt chosen) = phrase.target :=
        flatMap_respelledAt_chosen hne htracks.mem_of_replaced htracks.eq_or_clear
      rw [given, rendered, hfirst, ih htracks.of_replaced]

section

variable [DecidableEq α] {phrases : List (Phrase α)}

/-- The phrases of the chosen occurrences are those with a replaced piece. -/
theorem exists_mem_select_iff (hne : ∀ p ∈ phrases, p.source ≠ []) {text : List α}
    {phrase : Phrase α} :
    phrase ∈ (select (occurrences phrases text)).map Occurrence.phrase ↔
      replaced phrase ∈ segments phrases text := by
  rw [← map_phrase_marks 0, List.mem_map]
  constructor
  · rintro ⟨o, ho, rfl⟩
    exact ⟨o.place, (perm_marks_select hne text).mem_iff.2 ho⟩
  · rintro ⟨place, hmem⟩
    exact ⟨⟨phrase, place⟩, (perm_marks_select hne text).mem_iff.1 hmem, rfl⟩

/-- **The rendition of a text by its chosen occurrences.** The new text is the text with the chosen
occurrences replaced, the substitutions are the chosen occurrences of phrases that are no
identities, and the phrases found are the phrases of the chosen occurrences. -/
theorem translate_eq_of_select (hnodup : phrases.Nodup) (hne : ∀ p ∈ phrases, p.source ≠ [])
    (text : List α) :
    translate phrases text =
      { text := respelled (select (occurrences phrases text)) text
        substitutions := (select (occurrences phrases text)).countP fun o =>
          !decide o.phrase.IsIdentity
        phrasesFound :=
          ((select (occurrences phrases text)).map Occurrence.phrase).dedup.length } := by
  have hperm := perm_marks_select hne text
  rw [translate, Rendition.mk.injEq]
  refine ⟨?_, ?_, ?_⟩
  · have hchosen : ∀ o ∈ select (occurrences phrases text), o.phrase.source ≠ [] := by
      intro o ho
      have hphrase := (exists_mem_select_iff hne).1 (List.mem_map_of_mem ho)
      exact hne _ (mem_of_replaced_mem_segments hphrase)
    have hpieces := flatMap_respelledAt_pieces hchosen (Tracks.of_perm hperm)
    rw [flatMap_given_segments] at hpieces
    exact hpieces.symm
  · rw [← hperm.countP_eq]
    exact (countP_marks 0 _ (fun phrase => !decide phrase.IsIdentity) _ (fun _ => rfl)
      fun _ => rfl).symm
  · rw [List.countP_eq_length_filter]
    refine List.Perm.length_eq ((List.perm_ext_iff_of_nodup (hnodup.filter _)
      (List.nodup_dedup _)).2 fun phrase => ?_)
    rw [List.mem_dedup, exists_mem_select_iff hne, List.mem_filter, decide_eq_true_eq]
    exact and_iff_right_of_imp mem_of_replaced_mem_segments

end

/-! ### The octets of a text -/

namespace PhraseTable

/-- **A table translates the octets of a text by the choice of occurrences.** The order of the
occurrences is that of the phrases in the table, and of the places for each phrase. -/
theorem translate_octets_eq {table : PhraseTable} (h : table.Reachable) (text : Text) :
    let octets := Utf8.encode text
    let chosen := select (occurrences (table.phrases.map (Phrase.map Utf8.encode)) octets)
    Utf8.encode (table.translate text).text = respelled chosen octets ∧
      (table.translate text).substitutions =
        chosen.countP (fun o => decide (o.phrase.source ≠ o.phrase.target)) ∧
      (table.translate text).phrasesFound = (chosen.map Occurrence.phrase).dedup.length := by
  intro octets chosen
  have hcons := h.consistent
  have hnodup : (table.phrases.map (Phrase.map Utf8.encode)).Nodup :=
    hcons.nodup_phrases.map (Phrase.map_injective Utf8.encode_injective)
  have hne : ∀ p ∈ table.phrases.map (Phrase.map Utf8.encode), p.source ≠ [] := by
    intro p hp
    obtain ⟨q, hq, rfl⟩ := List.mem_map.1 hp
    exact fun hnil => hcons.source_ne_nil q hq (Utf8.encode_eq_nil_iff.1 hnil)
  have hoctets := translate_encode hcons.source_ne_nil text
  rw [translate_eq_of_select hnodup hne, Rendition.mk.injEq] at hoctets
  obtain ⟨htext, hsubstitutions, hfound⟩ := hoctets
  refine ⟨htext.symm, ?_, hfound.symm⟩
  rw [translate, ← hsubstitutions]
  exact congrArg chosen.countP (funext fun o => (decide_not).symm)

/-- In `xBCD` the identity `BCD` comes before the phrase for `x` and covers the `D`. -/
theorem translate_octets_eq_of_shifting :
    shiftingTable.Reachable ∧
      let octets := Utf8.encode ['x', 'B', 'C', 'D']
      let chosen := select (occurrences (shiftingTable.phrases.map (Phrase.map Utf8.encode)) octets)
      chosen.map Occurrence.place = [1, 0] ∧
        Utf8.encode (shiftingTable.translate ['x', 'B', 'C', 'D']).text = respelled chosen octets ∧
        (shiftingTable.translate ['x', 'B', 'C', 'D']).substitutions = 1 := by
  have h : shiftingTable.Reachable := .ofList ofList_shifting
  obtain ⟨htext, hsubstitutions, -⟩ := translate_octets_eq h ['x', 'B', 'C', 'D']
  refine ⟨h, by decide +kernel, htext, ?_⟩
  rw [hsubstitutions]
  decide +kernel

end PhraseTable

end Phrasebook
