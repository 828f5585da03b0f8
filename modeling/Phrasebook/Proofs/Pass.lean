import Mathlib.Data.List.Chain
import Phrasebook.Proofs.Layout
/-!
# What a pass leaves open

The invariants of a pass. Two open pieces never stand side by side, since a phrase cuts an open
piece only by putting something between its parts. No source of a phrase that has had its turn is
left inside an open piece. Together they say that the pass is complete: each occurrence of a source,
in the text that was given as in the text that is returned, shares a symbol with a replaced piece.

## Main definitions

* `Segment.IsUntouched`, `Segment.IsInserted`: the piece is open, or is a target that is not its
  own source.
* `Separated`: no two open pieces stand side by side.

## Main results

* `separated_segments`: the pieces of a pass are separated.
* `not_infix_of_mem_segments`: no source is left in an open piece.
* `exists_replaced_of_occursAt`: the pass is complete, in either reading of its pieces.
* `translate_text_of_substitutions_eq_zero`: a pass that substitutes nothing changes nothing.
-/

namespace Phrasebook

namespace Segment

variable {α : Type}

/-- The piece is still open. -/
def IsUntouched : Segment α → Prop
  | untouched _ => True
  | replaced _ => False

/-- The piece holds a target that differs from the source it replaces. -/
def IsInserted : Segment α → Prop
  | untouched _ => False
  | replaced phrase => ¬ phrase.IsIdentity

instance [DecidableEq α] (piece : Segment α) : Decidable piece.IsInserted :=
  match piece with
  | untouched _ => inferInstanceAs (Decidable False)
  | replaced phrase => inferInstanceAs (Decidable (¬ phrase.IsIdentity))

theorem rendered_eq_given {piece : Segment α} (h : ¬ piece.IsInserted) :
    piece.rendered = piece.given := by
  cases piece with
  | untouched text => rfl
  | replaced phrase => exact (of_not_not h : phrase.IsIdentity).symm

theorem flatMap_rendered_eq_given {pieces : List (Segment α)}
    (h : ∀ piece ∈ pieces, ¬ piece.IsInserted) :
    pieces.flatMap rendered = pieces.flatMap given :=
  List.flatMap_congr fun piece hpiece => rendered_eq_given (h piece hpiece)

/-- An open piece of `push a pieces` is one of `pieces`, or their first one with `a` before it. -/
theorem untouched_mem_push {a : α} {pieces : List (Segment α)} {text : List α}
    (h : untouched text ∈ push a pieces) :
    untouched text ∈ pieces ∨ text = [a] ∨
      ∃ first rest, pieces = untouched first :: rest ∧ text = a :: first := by
  unfold push at h
  split at h
  · rename_i first rest
    rcases List.mem_cons.mp h with heq | hmem
    · exact .inr (.inr ⟨first, rest, rfl, untouched.inj heq⟩)
    · exact .inl (List.mem_cons_of_mem _ hmem)
  · rcases List.mem_cons.mp h with heq | hmem
    · exact .inr (.inl (untouched.inj heq))
    · exact .inl hmem

theorem replaced_mem_push {a : α} {pieces : List (Segment α)} {phrase : Phrase α} :
    replaced phrase ∈ push a pieces ↔ replaced phrase ∈ pieces := by
  unfold push
  split <;> simp

end Segment

open Segment

variable {α : Type}

/-! ### Open pieces are parted -/

/-- No two open pieces stand side by side. -/
def Separated (pieces : List (Segment α)) : Prop :=
  pieces.IsChain fun x y => ¬ (x.IsUntouched ∧ y.IsUntouched)

theorem Separated.push {pieces : List (Segment α)} (h : Separated pieces) (a : α) :
    Separated (Segment.push a pieces) := by
  unfold Segment.push
  split
  · rename_i first rest
    cases rest with
    | nil => exact List.IsChain.singleton _
    | cons y rest => exact List.IsChain.cons_cons h.rel h.of_cons
  · rename_i hne
    cases pieces with
    | nil => exact List.IsChain.singleton _
    | cons y rest =>
      cases y with
      | untouched first => exact absurd rfl (hne first rest)
      | replaced phrase => exact List.IsChain.cons_cons (fun hxy => hxy.2) h

/-- Separated pieces without a replaced one are at most one piece. -/
theorem Separated.exists_eq_singleton {before run after : List (Segment α)}
    (h : Separated (before ++ (run ++ after))) (hrun : ∀ piece ∈ run, piece.IsUntouched)
    (hne : run ≠ []) : ∃ text, run = [untouched text] := by
  have hsep : Separated run := (List.IsChain.right_of_append h).left_of_append
  cases run with
  | nil => exact absurd rfl hne
  | cons x run =>
    cases run with
    | nil =>
      cases x with
      | untouched text => exact ⟨text, rfl⟩
      | replaced phrase => exact absurd (hrun _ List.mem_cons_self) id
    | cons y run =>
      exact absurd ⟨hrun x List.mem_cons_self, hrun y (List.mem_cons_of_mem _ List.mem_cons_self)⟩
        hsep.rel

/-- What stands after a word at the head of a text. -/
theorem drop_length_sub_one {word : List α} (hne : word ≠ []) (a : α) (rest : List α) :
    rest.drop (word.length - 1) = (a :: rest).drop word.length := by
  obtain ⟨n, hn⟩ := Nat.exists_eq_add_of_lt (List.length_pos_of_ne_nil hne)
  rw [hn, Nat.zero_add, Nat.add_sub_cancel, List.drop_succ_cons]

variable [DecidableEq α]

theorem separated_cut (phrase : Phrase α) (text : List α) : Separated (cut phrase text) := by
  fun_induction cut phrase text with
  | case1 => exact List.IsChain.nil
  | case2 a rest h ih =>
    refine List.isChain_cons.2 ⟨fun y _ hxy => hxy.1, ih⟩
  | case3 a rest h ih => exact ih.push a

theorem refine_untouched_cons (text : List α) (pieces : List (Segment α)) (phrase : Phrase α) :
    refine (.untouched text :: pieces) phrase = cut phrase text ++ refine pieces phrase :=
  rfl

theorem refine_replaced_cons (done : Phrase α) (pieces : List (Segment α)) (phrase : Phrase α) :
    refine (.replaced done :: pieces) phrase = .replaced done :: refine pieces phrase :=
  rfl

theorem Separated.refine {pieces : List (Segment α)} (h : Separated pieces) (phrase : Phrase α) :
    Separated (refine pieces phrase) := by
  induction pieces with
  | nil => exact List.IsChain.nil
  | cons x rest ih =>
    have hrest := ih h.of_cons
    cases x with
    | replaced done =>
      rw [refine_replaced_cons]
      exact List.isChain_cons.2 ⟨fun y _ hxy => hxy.1, hrest⟩
    | untouched text =>
      rw [refine_untouched_cons]
      refine List.IsChain.append (separated_cut phrase text) hrest ?_
      -- what follows an open piece is replaced, and stays so
      intro x _ y hy hxy
      cases rest with
      | nil => cases hy
      | cons z rest =>
        cases z with
        | untouched first => exact h.rel ⟨trivial, trivial⟩
        | replaced done =>
          rw [refine_replaced_cons, List.head?_cons, Option.mem_some_iff] at hy
          rw [← hy] at hxy
          exact hxy.2

theorem Separated.foldl_refine {pieces : List (Segment α)} (h : Separated pieces)
    (phrases : List (Phrase α)) : Separated (phrases.foldl Phrasebook.refine pieces) := by
  induction phrases generalizing pieces with
  | nil => exact h
  | cons phrase phrases ih => exact ih (h.refine phrase)

theorem separated_segments (phrases : List (Phrase α)) (text : List α) :
    Separated (segments phrases text) :=
  Separated.foldl_refine (List.IsChain.singleton _) phrases

/-! ### Where the pieces come from -/

omit [DecidableEq α] in
/-- A piece of a text is spelled somewhere in it. -/
theorem given_infix_flatMap {piece : Segment α} {pieces : List (Segment α)} (h : piece ∈ pieces) :
    piece.given <:+: pieces.flatMap given := by
  obtain ⟨before, after, rfl⟩ := List.append_of_mem h
  rw [List.flatMap_append, List.flatMap_cons]
  exact ⟨before.flatMap given, after.flatMap given, by rw [List.append_assoc]⟩

theorem eq_of_replaced_mem_cut {phrase done : Phrase α} {text : List α}
    (h : .replaced done ∈ cut phrase text) : done = phrase := by
  fun_induction cut phrase text with
  | case1 => cases h
  | case2 a rest hpre ih =>
    rcases List.mem_cons.mp h with heq | hmem
    · exact replaced.inj heq
    · exact ih hmem
  | case3 a rest hpre ih => exact ih (replaced_mem_push.1 h)

theorem mem_refine {piece : Segment α} {pieces : List (Segment α)} {phrase : Phrase α} :
    piece ∈ refine pieces phrase ↔
      (∃ text, .untouched text ∈ pieces ∧ piece ∈ cut phrase text) ∨
        ∃ done, piece = .replaced done ∧ .replaced done ∈ pieces := by
  rw [refine, List.mem_flatMap]
  constructor
  · rintro ⟨x, hx, hpiece⟩
    cases x with
    | untouched text => exact .inl ⟨text, hx, hpiece⟩
    | replaced done => exact .inr ⟨done, List.mem_singleton.1 hpiece, hx⟩
  · rintro (⟨text, htext, hpiece⟩ | ⟨done, rfl, hdone⟩)
    · exact ⟨_, htext, hpiece⟩
    · exact ⟨_, hdone, List.mem_singleton.2 rfl⟩

theorem mem_of_replaced_mem_foldl_refine {phrases : List (Phrase α)} {pieces : List (Segment α)}
    {done : Phrase α} (h : .replaced done ∈ phrases.foldl refine pieces) :
    done ∈ phrases ∨ .replaced done ∈ pieces := by
  induction phrases generalizing pieces with
  | nil => exact .inr h
  | cons phrase phrases ih =>
    rcases ih h with hmem | hmem
    · exact .inl (List.mem_cons_of_mem _ hmem)
    · rcases mem_refine.1 hmem with ⟨text, -, hcut⟩ | ⟨_, heq, hpieces⟩
      · rw [eq_of_replaced_mem_cut hcut]
        exact .inl List.mem_cons_self
      · exact .inr (heq ▸ hpieces)

/-- Only phrases of the list replace anything. -/
theorem mem_of_replaced_mem_segments {phrases : List (Phrase α)} {text : List α} {done : Phrase α}
    (h : .replaced done ∈ segments phrases text) : done ∈ phrases := by
  refine (mem_of_replaced_mem_foldl_refine h).resolve_right fun hmem => ?_
  cases List.mem_singleton.1 hmem

/-! ### No source is left open -/

theorem occursIn_iff_isInfix {word text : List α} : occursIn word text = true ↔ word <:+: text := by
  rw [occursIn_iff]
  exact exists_congr fun before => exists_congr fun after => eq_comm

/-- The phrase that cuts leaves no occurrence of its source in an open piece. -/
theorem not_infix_of_untouched_mem_cut {phrase : Phrase α} {text part : List α}
    (hne : phrase.source ≠ []) (h : .untouched part ∈ cut phrase text) :
    ¬ phrase.source <:+: part := by
  fun_induction cut phrase text generalizing part with
  | case1 => cases h
  | case2 a rest hpre ih =>
    rcases List.mem_cons.mp h with heq | hmem
    · cases heq
    · exact ih hmem
  | case3 a rest hpre ih =>
    have hnot : ∀ first, first <+: rest → ¬ phrase.source <+: a :: first := fun first hfirst hp =>
      hpre ⟨hne, List.isPrefixOf_iff_prefix.2 (hp.trans (List.cons_prefix_cons.2 ⟨rfl, hfirst⟩))⟩
    rcases untouched_mem_push h with hmem | rfl | ⟨first, more, hcut, rfl⟩
    · exact ih hmem
    · rw [List.infix_cons_iff]
      rintro (hp | hin)
      · exact hnot [] (List.nil_prefix) hp
      · exact hne (List.infix_nil.1 hin)
    · rw [List.infix_cons_iff]
      rintro (hp | hin)
      · refine hnot first ⟨more.flatMap given, ?_⟩ hp
        rw [← flatMap_given_cut phrase rest, hcut]
        rfl
      · exact ih (by rw [hcut]; exact List.mem_cons_self) hin

/-- An open piece of the end of a pass is a part of one of its beginning. -/
theorem exists_untouched_of_foldl_refine {phrases : List (Phrase α)} {pieces : List (Segment α)}
    {text : List α} (h : .untouched text ∈ phrases.foldl refine pieces) :
    ∃ whole, .untouched whole ∈ pieces ∧ text <:+: whole := by
  induction phrases generalizing pieces with
  | nil => exact ⟨text, h, List.infix_rfl⟩
  | cons phrase phrases ih =>
    obtain ⟨part, hpart, hin⟩ := ih h
    rcases mem_refine.1 hpart with ⟨whole, hwhole, hcut⟩ | ⟨_, heq, -⟩
    · have hgiven := given_infix_flatMap hcut
      rw [flatMap_given_cut] at hgiven
      exact ⟨whole, hwhole, hin.trans hgiven⟩
    · cases heq

theorem not_infix_of_mem_foldl_refine {phrases : List (Phrase α)} {pieces : List (Segment α)}
    {text : List α} {phrase : Phrase α} (h : .untouched text ∈ phrases.foldl refine pieces)
    (hmem : phrase ∈ phrases) (hne : phrase.source ≠ []) : ¬ phrase.source <:+: text := by
  induction phrases generalizing pieces with
  | nil => cases hmem
  | cons first phrases ih =>
    rcases List.mem_cons.mp hmem with rfl | hrest
    · -- its own turn frees the open pieces of the source, and later ones only cut them smaller
      rw [List.foldl_cons] at h
      obtain ⟨whole, hwhole, hin⟩ := exists_untouched_of_foldl_refine h
      rcases mem_refine.1 hwhole with ⟨_, -, hcut⟩ | ⟨_, heq, -⟩
      · exact fun hsource => not_infix_of_untouched_mem_cut hne hcut (hsource.trans hin)
      · cases heq
    · exact ih h hrest

/-- **No source is left in an open piece.** -/
theorem not_infix_of_mem_segments {phrases : List (Phrase α)} {text part : List α}
    {phrase : Phrase α} (h : .untouched part ∈ segments phrases text) (hmem : phrase ∈ phrases)
    (hne : phrase.source ≠ []) : ¬ phrase.source <:+: part :=
  not_infix_of_mem_foldl_refine h hmem hne

/-- **The pass is complete**, in either reading of its pieces: where a source occurs, it shares a
symbol with a replaced piece. -/
theorem exists_replaced_of_occursAt {phrases : List (Phrase α)} {text : List α}
    {side : Segment α → List α} (huntouched : ∀ u, side (.untouched u) = u)
    (hreplaced : ∀ done ∈ phrases, side (.replaced done) ≠ []) {phrase : Phrase α}
    (hmem : phrase ∈ phrases) (hne : phrase.source ≠ []) {place : Nat}
    (hocc : OccursAt phrase.source ((segments phrases text).flatMap side) place) :
    ∃ t done, (t, .replaced done) ∈ layout side 0 (segments phrases text) ∧
      (Span.ofWord place phrase.source).Meets t := by
  by_contra hnone
  have hpos : 0 < phrase.source.length := List.length_pos_of_ne_nil hne
  -- an occurrence that meets no replaced piece lies within one open piece
  obtain ⟨before, run, after, hpieces, hrun, hstart, hstop⟩ :
      LiesWithin side IsUntouched (segments phrases text) (.ofWord place phrase.source) := by
    refine liesWithin_of_not_meets ?_ ?_ (hocc.add_length_le hne) ?_
    · intro piece hpiece hopen
      cases piece with
      | untouched u => exact absurd trivial hopen
      | replaced done => exact hreplaced done (mem_of_replaced_mem_segments hpiece)
    · simp only [Span.ofWord]
      omega
    · intro t piece ht hopen hmeets
      cases piece with
      | untouched u => exact hopen trivial
      | replaced done => exact hnone ⟨t, done, ht, hmeets⟩
  simp only [Span.ofWord] at hstart hstop
  have hrun_ne : run ≠ [] := by
    rintro rfl
    rw [List.flatMap_nil, List.length_nil] at hstop
    omega
  obtain ⟨u, rfl⟩ : ∃ u, run = [untouched u] :=
    Separated.exists_eq_singleton (hpieces ▸ separated_segments phrases text) hrun hrun_ne
  -- and no source is left in an open piece
  have hu : .untouched u ∈ segments phrases text := by
    rw [hpieces]
    simp
  refine not_infix_of_mem_segments hu hmem hne (occursIn_iff_isInfix.1 ?_)
  rw [List.flatMap_singleton, huntouched] at hstop
  obtain ⟨k, rfl⟩ := Nat.exists_eq_add_of_le hstart
  rw [hpieces, List.flatMap_append, List.flatMap_append, List.flatMap_singleton, huntouched,
    occursAt_append_left, occursAt_append_right (by omega)] at hocc
  exact occursIn_of_occursAt hocc (by omega)

/-! ### Counting what was substituted -/

theorem substitutions_eq_countP (phrases : List (Phrase α)) (text : List α) :
    (translate phrases text).substitutions =
      (segments phrases text).countP fun piece => decide piece.IsInserted := by
  rw [translate]
  apply List.countP_congr
  intro piece _
  rw [decide_eq_true_eq]
  cases piece <;> simp [IsInserted]

theorem substitutions_eq_zero_iff {phrases : List (Phrase α)} {text : List α} :
    (translate phrases text).substitutions = 0 ↔
      ∀ piece ∈ segments phrases text, ¬ piece.IsInserted := by
  rw [substitutions_eq_countP, List.countP_eq_zero]
  simp only [decide_eq_true_eq]

/-- A pass that substitutes nothing changes nothing. -/
theorem translate_text_of_substitutions_eq_zero {phrases : List (Phrase α)} {text : List α}
    (h : (translate phrases text).substitutions = 0) : (translate phrases text).text = text := by
  calc (translate phrases text).text
      = (segments phrases text).flatMap rendered := rfl
    _ = (segments phrases text).flatMap given :=
        flatMap_rendered_eq_given (substitutions_eq_zero_iff.1 h)
    _ = text := flatMap_given_segments phrases text

end Phrasebook
