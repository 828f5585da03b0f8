import Mathlib.Algebra.GroupWithZero.Nat
import Phrasebook.Proofs.Consistent
import Phrasebook.Proofs.Octets
/-!
# Translation is local

A pass looks at a text through the occurrences of its phrases, and no further. Where no occurrence
goes across a junction of two texts, the pass over both together cuts each of them as it cuts it
alone: the pieces are those of the one text followed by those of the other, but for two open pieces
that meet at the junction and are one. So the translation of the whole is put together from the
translations of the parts, and a text can be taken line by line if no source has a line break.

## Main definitions

* `Crosses`: a word occurs across the junction of two texts.
* `Joined`: the pieces of two texts, as those of the text that they make together.

## Main results

* `joined_cut`: what one phrase makes of the joined text.
* `joined_segments`: what a whole pass makes of it.
* `PhraseTable.translates_part_by_part`: the rendition of a text by the renditions of its parts.
-/

namespace Phrasebook

open Segment

variable {α : Type}

/-- The word occurs in the joined text with symbols on both sides of the junction. -/
def Crosses (word front back : List α) : Prop :=
  ∃ place < front.length, front.length < place + word.length ∧ OccursAt word (front ++ back) place

instance [DecidableEq α] (word front back : List α) : Decidable (Crosses word front back) :=
  inferInstanceAs (Decidable (∃ place < front.length, _))

/-- What stands after a text cannot undo an occurrence in it. -/
theorem OccursAt.append_right {word text : List α} {place : Nat} (h : OccursAt word text place)
    (after : List α) : OccursAt word (text ++ after) place := by
  rw [OccursAt, List.drop_append]
  exact h.trans (List.prefix_append _ _)

/-- Nor can what stands around two texts undo one across their junction. -/
theorem Crosses.append {word front back : List α} (h : Crosses word front back)
    (before after : List α) : Crosses word (before ++ front) (back ++ after) := by
  obtain ⟨place, hplace, hstop, hocc⟩ := h
  refine ⟨before.length + place, ?_, ?_, ?_⟩
  · rw [List.length_append]
    omega
  · rw [List.length_append]
    omega
  · rw [List.append_assoc, occursAt_append_left, ← List.append_assoc]
    exact hocc.append_right after

/-- An occurrence spells what it covers. -/
theorem OccursAt.mem_of_covers {word text : List α} {place covered : Nat} {a : α}
    (h : OccursAt word text place) (hcovers : (Span.ofWord place word).Covers covered)
    (ha : text[covered]? = some a) : a ∈ word := by
  obtain ⟨hge, hlt⟩ := hcovers
  obtain ⟨k, rfl⟩ := Nat.exists_eq_add_of_le hge
  have hk : k < word.length := by
    simp only [Span.ofWord] at hlt
    omega
  have hget : text[place + k]? = some word[k] := by
    rw [← List.getElem?_drop]
    exact List.prefix_iff_getElem?.1 h k hk
  exact Option.some.inj (hget.symm.trans ha) ▸ List.getElem_mem hk

/-- A word that crosses a junction has the symbol after it. -/
theorem Crosses.mem {word front back : List α} {a : α} (h : Crosses word front (a :: back)) :
    a ∈ word := by
  obtain ⟨place, hplace, hstop, hocc⟩ := h
  exact hocc.mem_of_covers ⟨hplace.le, hstop⟩ (by simp)

/-- It has the symbol before it too. -/
theorem Crosses.mem_of_singleton {word back : List α} {a : α} (h : Crosses word [a] back) :
    a ∈ word := by
  obtain ⟨place, hplace, hstop, hocc⟩ := h
  obtain rfl : place = 0 := Nat.lt_one_iff.1 hplace
  exact hocc.mem_of_covers ⟨Nat.le_refl 0, Nat.zero_lt_of_lt hstop⟩ (by simp)

/-! ### The pieces of a joined text -/

theorem Segment.push_append {front : List (Segment α)} (hne : front ≠ []) (a : α)
    (back : List (Segment α)) : push a (front ++ back) = push a front ++ back := by
  obtain ⟨piece, rest, rfl⟩ := List.exists_cons_of_ne_nil hne
  cases piece <;> rfl

/-- The pieces `whole` are those of `front` and then those of `back`, unless open pieces meet at the
junction: then they are one piece. -/
inductive Joined : List (Segment α) → List (Segment α) → List (Segment α) → Prop where
  /-- Nothing has to be put together. -/
  | apart (front back : List (Segment α)) : Joined front back (front ++ back)
  /-- The open pieces at the junction are one. -/
  | fused (front back : List (Segment α)) (left right : List α) :
    Joined (front ++ [untouched left]) (untouched right :: back)
      (front ++ untouched (left ++ right) :: back)

namespace Joined

variable {front back whole : List (Segment α)}

/-- More pieces on both sides stay as they are. -/
theorem append (h : Joined front back whole) (before after : List (Segment α)) :
    Joined (before ++ front) (back ++ after) (before ++ whole ++ after) := by
  cases h with
  | apart =>
    simpa only [List.append_assoc] using apart (before ++ front) (back ++ after)
  | fused front back left right =>
    simpa only [List.append_assoc, List.cons_append] using
      fused (before ++ front) (back ++ after) left right

/-- A symbol in front of the first text is in front of the joined one. -/
theorem push (h : Joined front back whole) (a : α) :
    Joined (Segment.push a front) back (Segment.push a whole) := by
  cases h with
  | apart =>
    rcases eq_or_ne front [] with rfl | hne
    · -- the symbol is all of the first text, and joins the first piece of `back` if that is open
      rcases back with _ | ⟨text | phrase, back⟩
      · exact apart [untouched [a]] []
      · exact fused [] back [a] text
      · exact apart [untouched [a]] (replaced phrase :: back)
    · rw [push_append hne]
      exact apart (Segment.push a front) back
  | fused front back left right =>
    rcases eq_or_ne front [] with rfl | hne
    · exact fused [] back (a :: left) right
    · rw [push_append hne, push_append hne]
      exact fused (Segment.push a front) back left right

/-- Either reading of the pieces goes on across the junction. -/
theorem flatMap_eq (h : Joined front back whole) {side : Segment α → List α}
    (hside : ∀ text, side (untouched text) = text) :
    whole.flatMap side = front.flatMap side ++ back.flatMap side := by
  cases h with
  | apart => exact List.flatMap_append
  | fused front back left right => simp [hside]

theorem countP_eq (h : Joined front back whole) {test : Segment α → Bool}
    (htest : ∀ text, test (untouched text) = false) :
    whole.countP test = front.countP test + back.countP test := by
  cases h with
  | apart => exact List.countP_append
  | fused front back left right => simp [htest]

theorem replaced_mem_iff (h : Joined front back whole) {phrase : Phrase α} :
    replaced phrase ∈ whole ↔ replaced phrase ∈ front ∨ replaced phrase ∈ back := by
  cases h with
  | apart => exact List.mem_append
  | fused front back left right => simp

end Joined

variable [DecidableEq α]

/-- **One phrase cuts a joined text as it cuts the parts.** -/
theorem joined_cut {phrase : Phrase α} {front back : List α}
    (h : ¬ Crosses phrase.source front back) :
    Joined (cut phrase front) (cut phrase back) (cut phrase (front ++ back)) := by
  fun_induction cut phrase front with
  | case1 => exact .apart [] (cut phrase back)
  | case2 a rest hpre ih =>
    obtain ⟨hne, hpre⟩ := hpre
    obtain ⟨after, hafter⟩ := List.isPrefixOf_iff_prefix.1 hpre
    have hdrop : rest.drop (phrase.source.length - 1) = after := by
      rw [drop_length_sub_one hne a rest, ← hafter, List.drop_left]
    rw [hdrop] at ih ⊢
    rw [← hafter] at h ⊢
    have hrest : ¬ Crosses phrase.source after back := fun hcross =>
      h (by simpa using hcross.append phrase.source [])
    rw [List.append_assoc, cut_append hne]
    simpa using (ih hrest).append [replaced phrase] []
  | case3 a rest hpre ih =>
    have hrest : ¬ Crosses phrase.source rest back := fun hcross =>
      h (by simpa using hcross.append [a] [])
    -- what begins with the first symbol is either inside the first text or crosses the junction
    have hpre' : ¬ (phrase.source ≠ [] ∧ phrase.source.isPrefixOf (a :: (rest ++ back))) := by
      rintro ⟨hne, hlong⟩
      have hlong' := List.isPrefixOf_iff_prefix.1 hlong
      have hshort : ¬ phrase.source <+: a :: rest := fun hshort =>
        hpre ⟨hne, List.isPrefixOf_iff_prefix.2 hshort⟩
      refine h ⟨0, Nat.succ_pos _, ?_, hlong'⟩
      by_contra hle
      exact hshort (List.prefix_of_prefix_length_le hlong' (List.prefix_append (a :: rest) back)
        (by omega))
    rw [List.cons_append, cut, if_neg hpre']
    exact (ih hrest).push a

theorem refine_append (front back : List (Segment α)) (phrase : Phrase α) :
    refine (front ++ back) phrase = refine front phrase ++ refine back phrase :=
  List.flatMap_append

namespace Joined

variable {front back whole : List (Segment α)}

theorem refine (h : Joined front back whole) {phrase : Phrase α}
    (hcross : ¬ Crosses phrase.source (front.flatMap given) (back.flatMap given)) :
    Joined (Phrasebook.refine front phrase) (Phrasebook.refine back phrase)
      (Phrasebook.refine whole phrase) := by
  cases h with
  | apart =>
    rw [refine_append]
    exact apart _ _
  | fused front back left right =>
    have hpiece : ¬ Crosses phrase.source left right := fun hpiece =>
      hcross (by simpa [given] using hpiece.append (front.flatMap given) (back.flatMap given))
    have hcut := (joined_cut hpiece).append (Phrasebook.refine front phrase)
      (Phrasebook.refine back phrase)
    rw [refine_append, refine_append, refine_untouched_cons, refine_untouched_cons,
      refine_untouched_cons, ← List.append_assoc]
    simpa [Phrasebook.refine] using hcut

/-- No phrase brings an occurrence across the junction: the texts that the pieces spell stay. -/
theorem foldl_refine (h : Joined front back whole) {phrases : List (Phrase α)}
    (hcross : ∀ p ∈ phrases, ¬ Crosses p.source (front.flatMap given) (back.flatMap given)) :
    Joined (phrases.foldl Phrasebook.refine front) (phrases.foldl Phrasebook.refine back)
      (phrases.foldl Phrasebook.refine whole) := by
  induction phrases generalizing front back whole with
  | nil => exact h
  | cons phrase phrases ih =>
    refine ih (h.refine (hcross phrase List.mem_cons_self)) fun p hp => ?_
    rw [flatMap_given_refine, flatMap_given_refine]
    exact hcross p (List.mem_cons_of_mem _ hp)

end Joined

/-- **A pass cuts a joined text as it cuts the parts.** -/
theorem joined_segments {phrases : List (Phrase α)} {front back : List α}
    (h : ∀ p ∈ phrases, ¬ Crosses p.source front back) :
    Joined (segments phrases front) (segments phrases back) (segments phrases (front ++ back)) := by
  refine Joined.foldl_refine (.fused [] [] front back) fun p hp => ?_
  simpa [given] using h p hp

/-! ### The rendition of a joined text -/

/-- What at least one of two tests finds is no more than what they find one by one. -/
theorem countP_or_le {β : Type} (p q : β → Bool) (xs : List β) :
    xs.countP (fun x => p x || q x) ≤ xs.countP p + xs.countP q := by
  induction xs with
  | nil => exact Nat.le_refl _
  | cons x xs ih =>
    simp only [List.countP_cons]
    cases p x <;> cases q x <;> simp <;> omega

/-- **The rendition of a joined text is put together from those of the parts.** A phrase that occurs
in both is found in both, but counts once for the whole. -/
theorem translate_append {phrases : List (Phrase α)} {front back : List α}
    (h : ∀ p ∈ phrases, ¬ Crosses p.source front back) :
    (translate phrases (front ++ back)).text =
        (translate phrases front).text ++ (translate phrases back).text ∧
      (translate phrases (front ++ back)).substitutions =
        (translate phrases front).substitutions + (translate phrases back).substitutions ∧
      max (translate phrases front).phrasesFound (translate phrases back).phrasesFound ≤
        (translate phrases (front ++ back)).phrasesFound ∧
      (translate phrases (front ++ back)).phrasesFound ≤
        (translate phrases front).phrasesFound + (translate phrases back).phrasesFound := by
  have hjoined := joined_segments h
  have hfound (p : Phrase α) : decide (replaced p ∈ segments phrases (front ++ back)) =
      (decide (replaced p ∈ segments phrases front) ||
        decide (replaced p ∈ segments phrases back)) := by
    simp [hjoined.replaced_mem_iff]
  refine ⟨hjoined.flatMap_eq fun _ => rfl, hjoined.countP_eq fun _ => rfl, ?_, ?_⟩
  · simp only [translate, hfound]
    refine Nat.max_le.2 ⟨List.countP_mono_left fun p _ hp => ?_,
      List.countP_mono_left fun p _ hp => ?_⟩
    · rw [hp, Bool.true_or]
    · rw [hp, Bool.or_true]
  · simp only [translate, hfound]
    exact countP_or_le _ _ _

/-! ### Lines -/

theorem source_ne_nil_of_replaced_mem_cut {phrase done : Phrase α} {text : List α}
    (h : .replaced done ∈ cut phrase text) : done.source ≠ [] := by
  fun_induction cut phrase text with
  | case1 => cases h
  | case2 a rest hpre ih =>
    rcases List.mem_cons.mp h with heq | hmem
    · exact replaced.inj heq ▸ hpre.1
    · exact ih hmem
  | case3 a rest hpre ih => exact ih (replaced_mem_push.1 h)

/-- An empty source is never replaced. -/
theorem source_ne_nil_of_replaced_mem_foldl_refine {phrases : List (Phrase α)}
    {pieces : List (Segment α)} (hpieces : ∀ p, .replaced p ∈ pieces → p.source ≠ [])
    {done : Phrase α} (h : .replaced done ∈ phrases.foldl refine pieces) : done.source ≠ [] := by
  induction phrases generalizing pieces with
  | nil => exact hpieces done h
  | cons phrase phrases ih =>
    refine ih (fun p hp => ?_) h
    rcases mem_refine.1 hp with ⟨text, -, hcut⟩ | ⟨_, heq, hmem⟩
    · exact source_ne_nil_of_replaced_mem_cut hcut
    · exact hpieces p (heq ▸ hmem)

/-- A text in which no source occurs stays as it is. -/
theorem translate_of_not_infix {phrases : List (Phrase α)} {text : List α}
    (h : ∀ p ∈ phrases, p.source ≠ [] → ¬ p.source <:+: text) :
    translate phrases text = ⟨text, 0, 0⟩ := by
  have hnone (done : Phrase α) : .replaced done ∉ segments phrases text := by
    intro hmem
    refine h done (mem_of_replaced_mem_segments hmem) ?_ ?_
    · refine source_ne_nil_of_replaced_mem_foldl_refine (fun p hp => ?_) hmem
      cases List.mem_singleton.1 hp
    · simpa only [flatMap_given_segments, given] using given_infix_flatMap hmem
  have hzero : (translate phrases text).substitutions = 0 := by
    refine substitutions_eq_zero_iff.2 fun piece hpiece hinserted => ?_
    cases piece with
    | untouched u => exact hinserted
    | replaced done => exact hnone done hpiece
  have hfound : (translate phrases text).phrasesFound = 0 := by
    simp [translate, hnone]
  calc translate phrases text
      = ⟨(translate phrases text).text, (translate phrases text).substitutions,
          (translate phrases text).phrasesFound⟩ := rfl
    _ = ⟨text, 0, 0⟩ := by
        rw [translate_text_of_substitutions_eq_zero hzero, hzero, hfound]

/-- **A text is translated line by line**, whatever symbol ends the lines, if no source has it. -/
theorem translate_intercalate {phrases : List (Phrase α)} {mark : α}
    (h : ∀ p ∈ phrases, mark ∉ p.source) (lines : List (List α)) :
    (translate phrases ([mark].intercalate lines)).text =
        [mark].intercalate (lines.map fun line => (translate phrases line).text) ∧
      (translate phrases ([mark].intercalate lines)).substitutions =
        (lines.map fun line => (translate phrases line).substitutions).sum ∧
      (∀ line ∈ lines, (translate phrases line).phrasesFound ≤
        (translate phrases ([mark].intercalate lines)).phrasesFound) ∧
      (translate phrases ([mark].intercalate lines)).phrasesFound ≤
        (lines.map fun line => (translate phrases line).phrasesFound).sum := by
  have hmark : translate phrases [mark] = ⟨[mark], 0, 0⟩ := by
    refine translate_of_not_infix fun p hp hne hin => h p hp ?_
    obtain ⟨a, ha⟩ := List.exists_mem_of_ne_nil p.source hne
    exact List.mem_singleton.1 (hin.subset ha) ▸ ha
  have hempty : translate phrases [] = ⟨[], 0, 0⟩ :=
    translate_of_not_infix fun p _ hne hin => hne (List.infix_nil.1 hin)
  induction lines with
  | nil => simp [hempty]
  | cons line lines ih =>
    cases lines with
    | nil => simp
    | cons next lines =>
      rw [List.intercalate_cons_cons, List.append_assoc]
      -- no source crosses the junction before the mark, nor the one after it
      obtain ⟨htext, hcount, hmax, hadd⟩ := translate_append fun p hp (hcross : Crosses p.source
        line ([mark] ++ [mark].intercalate (next :: lines))) => h p hp hcross.mem
      obtain ⟨htext', hcount', hmax', hadd'⟩ := translate_append fun p hp (hcross : Crosses p.source
        [mark] ([mark].intercalate (next :: lines))) => h p hp hcross.mem_of_singleton
      simp only [hmark] at htext' hcount' hmax' hadd'
      obtain ⟨ihtext, ihcount, ihmax, ihadd⟩ := ih
      refine ⟨?_, ?_, List.forall_mem_cons.2 ⟨by omega, fun l hl => ?_⟩, ?_⟩
      · rw [htext, htext', ihtext]
        simp [List.intercalate_cons_cons]
      · rw [hcount, hcount', ihcount]
        simp
      · have := ihmax l hl
        omega
      · rw [List.map_cons, List.sum_cons]
        omega

namespace PhraseTable

/-- **A table translates a text part by part.** If no occurrence of a source of the table goes
across the junction of two texts, the text that they make together becomes the two translations one
after the other; the substitutions add up; and the phrases found are at least those of either text
and at most those of both together. So a text is translated line by line if no source has a line
break, and likewise for any other symbol that parts it. -/
theorem translates_part_by_part (table : PhraseTable) :
    (∀ front back : Text, (∀ p ∈ table.phrases, ¬ Crosses p.source front back) →
      (table.translate (front ++ back)).text =
          (table.translate front).text ++ (table.translate back).text ∧
        (table.translate (front ++ back)).substitutions =
          (table.translate front).substitutions + (table.translate back).substitutions ∧
        max (table.translate front).phrasesFound (table.translate back).phrasesFound ≤
          (table.translate (front ++ back)).phrasesFound ∧
        (table.translate (front ++ back)).phrasesFound ≤
          (table.translate front).phrasesFound + (table.translate back).phrasesFound) ∧
    ∀ mark : Char, (∀ p ∈ table.phrases, mark ∉ p.source) → ∀ text : Text,
      let lines := text.splitOn mark
      (table.translate text).text =
          [mark].intercalate (lines.map fun line => (table.translate line).text) ∧
        (table.translate text).substitutions =
          (lines.map fun line => (table.translate line).substitutions).sum ∧
        (∀ line ∈ lines,
          (table.translate line).phrasesFound ≤ (table.translate text).phrasesFound) ∧
        (table.translate text).phrasesFound ≤
          (lines.map fun line => (table.translate line).phrasesFound).sum := by
  refine ⟨fun front back h => translate_append h, fun mark h text => ?_⟩
  have hlines := translate_intercalate h (text.splitOn mark)
  rwa [List.intercalate_splitOn] at hlines

/-- In `xBCDxD` no source crosses the junction after `xBCD`, and so the two parts give three
substitutions together. `BCD` crosses the junction after `xB`, but not with a line break there. -/
theorem translates_part_by_part_of_shifting :
    (∀ p ∈ shifting, ¬ Crosses p.source ['x', 'B', 'C', 'D'] ['x', 'D']) ∧
      (shiftingTable.translate ['x', 'B', 'C', 'D', 'x', 'D']).substitutions = 3 ∧
      Crosses ['B', 'C', 'D'] ['x', 'B'] ['C', 'D'] ∧
      (shiftingTable.translate ['x', 'B', '\n', 'C', 'D']).text = ['A', 'B', '\n', 'C', 'z'] := by
  obtain ⟨hparts, hlines⟩ := translates_part_by_part shiftingTable
  have hcross : ∀ p ∈ shifting, ¬ Crosses p.source ['x', 'B', 'C', 'D'] ['x', 'D'] := by
    decide +kernel
  obtain ⟨-, hcount, -, -⟩ := hparts ['x', 'B', 'C', 'D'] ['x', 'D'] hcross
  obtain ⟨htext, -, -, -⟩ := hlines '\n' (by decide +kernel) ['x', 'B', '\n', 'C', 'D']
  refine ⟨hcross, hcount.trans ?_, by decide +kernel, htext.trans ?_⟩ <;> decide +kernel

end PhraseTable

end Phrasebook
