import Phrasebook.Proofs.Occurrence
/-!
# Where the pieces of a text stand

A list of segments spells two texts: the one that a pass was given and the one that it returns. In
either of them every piece takes up a span, one after the other. This module lays the pieces out
and finds those in which a given span lies.

## Main definitions

* `layout`: the pieces with the spans that they take up.
* `LiesWithin`: a span lies in some neighbouring pieces, all of one kind.

## Main results

* `eq_of_meets_of_mem_layout`: two pieces that share a symbol are one and the same.
* `liesWithin_of_not_meets`, `LiesWithin.not_meets`: the spans that meet no piece of another kind
  are those that lie within pieces of the kind.

## Implementation notes

`side` is the reading, `Segment.given` or `Segment.rendered`; nothing here depends on which.
-/

namespace Phrasebook

variable {α : Type} {side : Segment α → List α}

/-- The pieces with the spans that they take up in the text that `side` reads off them, the first
one from `start` on. -/
def layout (side : Segment α → List α) (start : Nat) :
    List (Segment α) → List (Span × Segment α)
  | [] => []
  | piece :: rest =>
    (.ofWord start (side piece), piece) :: layout side (start + (side piece).length) rest

theorem layout_append (side : Segment α → List α) (start : Nat) (front back : List (Segment α)) :
    layout side start (front ++ back) =
      layout side start front ++ layout side (start + (front.flatMap side).length) back := by
  induction front generalizing start with
  | nil => rfl
  | cons piece front ih =>
    rw [List.cons_append, layout, layout, ih, List.flatMap_cons, List.length_append, Nat.add_assoc]
    rfl

theorem exists_mem_layout {pieces : List (Segment α)} {piece : Segment α} (h : piece ∈ pieces)
    (start : Nat) : ∃ t, (t, piece) ∈ layout side start pieces := by
  obtain ⟨before, after, rfl⟩ := List.append_of_mem h
  rw [layout_append]
  exact ⟨_, List.mem_append_right _ List.mem_cons_self⟩

theorem mem_of_mem_layout {start : Nat} {pieces : List (Segment α)} {s : Span}
    {piece : Segment α} (h : (s, piece) ∈ layout side start pieces) : piece ∈ pieces := by
  induction pieces generalizing start with
  | nil => cases h
  | cons x rest ih =>
    rcases List.mem_cons.mp h with heq | hmem
    · rw [(Prod.mk.inj heq).2]
      exact List.mem_cons_self
    · exact List.mem_cons_of_mem _ (ih hmem)

/-- The spans lie between the ends of the text, each one as long as its piece. -/
theorem bounds_of_mem_layout {start : Nat} {pieces : List (Segment α)} {s : Span}
    {piece : Segment α} (h : (s, piece) ∈ layout side start pieces) :
    start ≤ s.start ∧ s.stop = s.start + (side piece).length ∧
      s.stop ≤ start + (pieces.flatMap side).length := by
  induction pieces generalizing start with
  | nil => cases h
  | cons x rest ih =>
    rw [List.flatMap_cons, List.length_append]
    rcases List.mem_cons.mp h with heq | hmem
    · obtain ⟨rfl, rfl⟩ := Prod.mk.inj heq
      refine ⟨Nat.le_refl _, rfl, ?_⟩
      simp only [Span.ofWord]
      omega
    · obtain ⟨h₁, h₂, h₃⟩ := ih hmem
      omega

theorem eq_ofWord_of_mem_layout {start : Nat} {pieces : List (Segment α)} {s : Span}
    {piece : Segment α} (h : (s, piece) ∈ layout side start pieces) :
    s = .ofWord s.start (side piece) := by
  rw [Span.ofWord, ← (bounds_of_mem_layout h).2.1]

/-- **Pieces are side by side.** Two pieces that share a symbol are one and the same. -/
theorem eq_of_meets_of_mem_layout {start : Nat} {pieces : List (Segment α)} {s t : Span}
    {x y : Segment α} (hx : (s, x) ∈ layout side start pieces)
    (hy : (t, y) ∈ layout side start pieces) (hmeets : s.Meets t) : (s, x) = (t, y) := by
  induction pieces generalizing start with
  | nil => cases hx
  | cons piece rest ih =>
    rw [layout] at hx hy
    -- the span of the head ends where those of the rest begin
    have key : ∀ {r : Span} {z : Segment α},
        (r, z) ∈ layout side (start + (side piece).length) rest →
          ¬ (Span.ofWord start (side piece)).Meets r := by
      intro r z hz
      have := (bounds_of_mem_layout hz).1
      simp only [Span.Meets, Span.ofWord]
      omega
    rcases List.mem_cons.mp hx with hxh | hxt <;> rcases List.mem_cons.mp hy with hyh | hyt
    · rw [hxh, hyh]
    · rw [(Prod.mk.inj hxh).1] at hmeets
      exact absurd hmeets (key hyt)
    · rw [(Prod.mk.inj hyh).1] at hmeets
      exact absurd hmeets.symm (key hxt)
    · exact ih hxt hyt

/-- A piece occurs in the text where it stands. -/
theorem occursAt_of_mem_layout {pieces : List (Segment α)} {s : Span} {piece : Segment α}
    (h : (s, piece) ∈ layout side 0 pieces) :
    OccursAt (side piece) (pieces.flatMap side) s.start := by
  have key : ∀ (before after : List (Segment α)),
      (s, piece) ∈ layout side (before.flatMap side).length after →
        OccursAt (side piece) ((before ++ after).flatMap side) s.start := by
    intro before after
    induction after generalizing before with
    | nil => intro h; cases h
    | cons x after ih =>
      intro h
      rcases List.mem_cons.mp h with heq | hmem
      · obtain ⟨rfl, rfl⟩ := Prod.mk.inj heq
        rw [List.flatMap_append, List.flatMap_cons]
        exact occursAt_append
      · have := ih (before ++ [x]) (by simpa using hmem)
        rwa [List.append_assoc, List.singleton_append] at this
  exact key [] pieces h

/-- A piece stands between what is spelled before it and what is spelled after it. -/
theorem exists_context_of_mem_layout {pieces : List (Segment α)} {s : Span} {piece : Segment α}
    (h : (s, piece) ∈ layout side 0 pieces) :
    ∃ before after, pieces.flatMap side = before ++ (side piece ++ after) ∧
      s = .ofWord before.length (side piece) := by
  obtain ⟨-, hstop, hend⟩ := bounds_of_mem_layout h
  obtain ⟨before, after, htext, hbefore⟩ := (occursAt_of_mem_layout h).exists_eq (by omega)
  exact ⟨before, after, htext, hbefore ▸ eq_ofWord_of_mem_layout h⟩

/-! ### Spans within pieces of one kind -/

/-- The span lies in neighbouring pieces that are all of the kind `Q`. -/
def LiesWithin (side : Segment α → List α) (Q : Segment α → Prop) (pieces : List (Segment α))
    (s : Span) : Prop :=
  ∃ before run after, pieces = before ++ (run ++ after) ∧ (∀ piece ∈ run, Q piece) ∧
    (before.flatMap side).length ≤ s.start ∧
      s.stop ≤ (before.flatMap side).length + (run.flatMap side).length

variable {Q : Segment α → Prop}

/-- Such a span meets no piece of another kind. -/
theorem LiesWithin.not_meets {pieces : List (Segment α)} {s t : Span} {piece : Segment α}
    (h : LiesWithin side Q pieces s) (ht : (t, piece) ∈ layout side 0 pieces) (hQ : ¬ Q piece) :
    ¬ s.Meets t := by
  obtain ⟨before, run, after, rfl, hrun, hstart, hstop⟩ := h
  rw [layout_append, layout_append, Nat.zero_add, List.mem_append, List.mem_append] at ht
  intro hmeets
  simp only [Span.Meets] at hmeets
  rcases ht with ht | ht | ht
  · have := (bounds_of_mem_layout ht).2.2
    omega
  · exact hQ (hrun _ (mem_of_mem_layout ht))
  · have := (bounds_of_mem_layout ht).1
    omega

/-- The part of the run that stands after the beginning of the span. -/
private theorem exists_run_of_not_meets {pieces : List (Segment α)} {start : Nat} {s : Span}
    (hside : ∀ piece ∈ pieces, ¬ Q piece → side piece ≠ []) (hstart : s.start ≤ start)
    (hstop : s.stop ≤ start + (pieces.flatMap side).length)
    (hmeets : ∀ t piece, (t, piece) ∈ layout side start pieces → ¬ Q piece → ¬ s.Meets t) :
    ∃ run after, pieces = run ++ after ∧ (∀ piece ∈ run, Q piece) ∧
      s.stop ≤ start + (run.flatMap side).length := by
  induction pieces generalizing start with
  | nil => exact ⟨[], [], rfl, fun _ h => (List.not_mem_nil h).elim, hstop⟩
  | cons x rest ih =>
    by_cases hend : s.stop ≤ start
    · exact ⟨[], x :: rest, rfl, fun _ h => (List.not_mem_nil h).elim, Nat.le_add_right_of_le hend⟩
    · have hQ : Q x := by
        by_contra hx
        have hpos := List.length_pos_of_ne_nil (hside x List.mem_cons_self hx)
        refine hmeets _ x List.mem_cons_self hx ?_
        simp only [Span.Meets, Span.ofWord]
        omega
      rw [List.flatMap_cons, List.length_append, ← Nat.add_assoc] at hstop
      obtain ⟨run, after, rfl, hrun, hlen⟩ :=
        ih (fun y hy => hside y (List.mem_cons_of_mem _ hy)) (Nat.le_add_right_of_le hstart) hstop
          fun t y hy => hmeets t y (List.mem_cons_of_mem _ hy)
      refine ⟨x :: run, after, rfl, List.forall_mem_cons.2 ⟨hQ, hrun⟩, ?_⟩
      rwa [List.flatMap_cons, List.length_append, ← Nat.add_assoc]

private theorem exists_before_run_of_not_meets {pieces : List (Segment α)} {start : Nat} {s : Span}
    (hside : ∀ piece ∈ pieces, ¬ Q piece → side piece ≠ []) (hs : s.start < s.stop)
    (hstart : start ≤ s.start) (hstop : s.stop ≤ start + (pieces.flatMap side).length)
    (hmeets : ∀ t piece, (t, piece) ∈ layout side start pieces → ¬ Q piece → ¬ s.Meets t) :
    ∃ before run after, pieces = before ++ (run ++ after) ∧ (∀ piece ∈ run, Q piece) ∧
      start + (before.flatMap side).length ≤ s.start ∧
        s.stop ≤ start + (before.flatMap side).length + (run.flatMap side).length := by
  induction pieces generalizing start with
  | nil =>
    rw [List.flatMap_nil, List.length_nil] at hstop
    omega
  | cons x rest ih =>
    have hrest : ∀ piece ∈ rest, ¬ Q piece → side piece ≠ [] :=
      fun y hy => hside y (List.mem_cons_of_mem _ hy)
    have hmeets' : ∀ t piece, (t, piece) ∈ layout side (start + (side x).length) rest →
        ¬ Q piece → ¬ s.Meets t := fun t y hy => hmeets t y (List.mem_cons_of_mem _ hy)
    have hstop' := hstop
    rw [List.flatMap_cons, List.length_append, ← Nat.add_assoc] at hstop'
    by_cases hx : start + (side x).length ≤ s.start
    · -- the span begins after this piece
      obtain ⟨before, run, after, rfl, hrun, h₁, h₂⟩ := ih hrest hx hstop' hmeets'
      refine ⟨x :: before, run, after, rfl, hrun, ?_, ?_⟩ <;>
        rwa [List.flatMap_cons, List.length_append, ← Nat.add_assoc]
    · -- the span begins in this piece, and the run begins with it
      have hQ : Q x := by
        by_contra hQx
        refine hmeets _ x List.mem_cons_self hQx ?_
        simp only [Span.Meets, Span.ofWord]
        omega
      obtain ⟨run, after, rfl, hrun, hlen⟩ :=
        exists_run_of_not_meets hrest (by omega) hstop' hmeets'
      refine ⟨[], x :: run, after, rfl, List.forall_mem_cons.2 ⟨hQ, hrun⟩, hstart, ?_⟩
      rwa [List.flatMap_cons, List.length_append, ← Nat.add_assoc]

/-- **A span that meets no piece of another kind lies within pieces of the kind.** Pieces of the
other kind must not be empty: an empty one inside the span would part the run without meeting the
span. -/
theorem liesWithin_of_not_meets {pieces : List (Segment α)} {s : Span}
    (hside : ∀ piece ∈ pieces, ¬ Q piece → side piece ≠ []) (hs : s.start < s.stop)
    (hstop : s.stop ≤ (pieces.flatMap side).length)
    (hmeets : ∀ t piece, (t, piece) ∈ layout side 0 pieces → ¬ Q piece → ¬ s.Meets t) :
    LiesWithin side Q pieces s := by
  have h := exists_before_run_of_not_meets hside hs (Nat.zero_le _) (by rwa [Nat.zero_add]) hmeets
  simpa only [LiesWithin, Nat.zero_add] using h

end Phrasebook
