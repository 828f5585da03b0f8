import Phrasebook.Proofs.Pass
/-!
# Choosing occurrences one after the other

A pass can be described without pieces. Take all occurrences of all phrases in the given text, those
of the first phrase before those of the second, and each phrase's from left to right. Go through
them in this order and choose each one that shares no symbol with one chosen before. This module
shows that the replaced pieces of a pass are the chosen occurrences.

## Main definitions

* `select`: the occurrences that are chosen from a list.
* `marks`: the occurrences that the replaced pieces of a list stand for.
* `Tracks`: the invariant of going through the pieces: what is chosen is marked, or behind.

## Main results

* `mem_select_iff`: which occurrences are chosen.
* `foldl_consider_cut`: within an open piece, choosing is what `cut` does.
* `foldl_consider_refine`: over all pieces, choosing the occurrences of one phrase is what `refine`
  does.
* `perm_marks_select`: the replaced pieces of a pass are the chosen occurrences.

## Implementation notes

The pass finds the occurrences of a phrase piece by piece, and so in the order of their places; but
a later phrase puts its pieces between those of the earlier ones. So the chosen occurrences and the
pieces are the same up to their order.
-/

namespace Phrasebook

open Segment

variable {α : Type}

/-- Choose the occurrence, unless it shares a symbol with one chosen before. -/
def consider (chosen : List (Occurrence α)) (o : Occurrence α) : List (Occurrence α) :=
  if chosen.any fun c => decide (o.span.Meets c.span) then chosen else chosen ++ [o]

/-- Go through the occurrences in order and choose each one that shares no symbol with one chosen
before. -/
def select (candidates : List (Occurrence α)) : List (Occurrence α) :=
  candidates.foldl consider []

theorem consider_of_meets {chosen : List (Occurrence α)} {o : Occurrence α}
    (h : ∃ c ∈ chosen, o.span.Meets c.span) : consider chosen o = chosen := by
  rw [consider, if_pos]
  simpa using h

theorem consider_of_not_meets {chosen : List (Occurrence α)} {o : Occurrence α}
    (h : ∀ c ∈ chosen, ¬ o.span.Meets c.span) : consider chosen o = chosen ++ [o] := by
  rw [consider, if_neg]
  simpa using h

theorem foldl_consider_of_meets {chosen candidates : List (Occurrence α)}
    (h : ∀ o ∈ candidates, ∃ c ∈ chosen, o.span.Meets c.span) :
    candidates.foldl consider chosen = chosen := by
  induction candidates with
  | nil => rfl
  | cons o candidates ih =>
    rw [List.foldl_cons, consider_of_meets (h o List.mem_cons_self)]
    exact ih fun p hp => h p (List.mem_cons_of_mem _ hp)

theorem mem_consider {chosen : List (Occurrence α)} {o p : Occurrence α} :
    o ∈ consider chosen p ↔
      o ∈ chosen ∨ o = p ∧ ∀ c ∈ chosen, ¬ p.span.Meets c.span := by
  by_cases h : ∃ c ∈ chosen, p.span.Meets c.span
  · rw [consider_of_meets h]
    obtain ⟨c, hc, hmeets⟩ := h
    exact ⟨.inl, fun ho => ho.elim id fun hfree => absurd hmeets (hfree.2 c hc)⟩
  · have hfree : ∀ c ∈ chosen, ¬ p.span.Meets c.span := fun c hc hmeets => h ⟨c, hc, hmeets⟩
    rw [consider_of_not_meets hfree, List.mem_append, List.mem_singleton]
    exact or_congr_right (and_iff_left hfree).symm

/-- **What is chosen.** An occurrence of an ordered list is chosen exactly if it shares no symbol
with a chosen one that comes before it. -/
theorem mem_select_iff {r : Occurrence α → Occurrence α → Prop}
    (hasymm : ∀ o p, r o p → ¬ r p o) {candidates : List (Occurrence α)}
    (h : candidates.Pairwise r) {o : Occurrence α} :
    o ∈ select candidates ↔
      o ∈ candidates ∧ ∀ c ∈ select candidates, r c o → ¬ o.span.Meets c.span := by
  induction candidates using List.reverseRecOn generalizing o with
  | nil => exact ⟨fun ho => absurd ho List.not_mem_nil, fun ho => absurd ho.1 List.not_mem_nil⟩
  | append_singleton candidates p ih =>
    obtain ⟨hfirst, -, hlast⟩ := List.pairwise_append.1 h
    have hbefore : ∀ c ∈ candidates, r c p := fun c hc => hlast c hc p (List.mem_singleton_self p)
    have hselect : select (candidates ++ [p]) = consider (select candidates) p := by
      rw [select, List.foldl_append]
      rfl
    have hsubset : ∀ c ∈ select candidates, c ∈ candidates := fun c hc => ((ih hfirst).1 hc).1
    rw [hselect]
    constructor
    · intro ho
      rcases mem_consider.1 ho with hold | ⟨rfl, hfree⟩
      · obtain ⟨hmem, hclear⟩ := (ih hfirst).1 hold
        refine ⟨List.mem_append_left _ hmem, ?_⟩
        intro c hc hco
        rcases mem_consider.1 hc with hc | ⟨rfl, -⟩
        · exact hclear c hc hco
        · exact absurd hco (hasymm _ _ (hbefore o hmem))
      · refine ⟨List.mem_append_right _ (List.mem_singleton_self o), ?_⟩
        intro c hc hco
        rcases mem_consider.1 hc with hc | ⟨rfl, -⟩
        · exact hfree c hc
        · exact absurd hco (hasymm _ _ hco)
    · rintro ⟨hmem, hclear⟩
      rcases List.mem_append.1 hmem with hmem | hmem
      · refine mem_consider.2 (.inl ((ih hfirst).2 ⟨hmem, ?_⟩))
        intro c hc hco
        exact hclear c (mem_consider.2 (.inl hc)) hco
      · cases List.mem_singleton.1 hmem
        refine mem_consider.2 (.inr ⟨rfl, ?_⟩)
        intro c hc
        exact hclear c (mem_consider.2 (.inl hc)) (hbefore c (hsubset c hc))

theorem mem_select_occurrences_iff [DecidableEq α] {phrases : List (Phrase α)}
    (hnodup : phrases.Nodup) {text : List α} {o : Occurrence α} :
    o ∈ select (occurrences phrases text) ↔
      o ∈ occurrences phrases text ∧ ∀ c ∈ select (occurrences phrases text),
        c.Before phrases o → ¬ o.span.Meets c.span :=
  mem_select_iff (fun _ _ => Occurrence.Before.asymm) (pairwise_occurrences hnodup text)

/-! ### The marks of a list of pieces -/

/-- The occurrences that the replaced pieces stand for in the given text, whose first piece begins
at `start`. -/
def marks (start : Nat) : List (Segment α) → List (Occurrence α)
  | [] => []
  | untouched text :: rest => marks (start + text.length) rest
  | replaced phrase :: rest => ⟨phrase, start⟩ :: marks (start + phrase.source.length) rest

theorem marks_append (start : Nat) (front back : List (Segment α)) :
    marks start (front ++ back) =
      marks start front ++ marks (start + (front.flatMap given).length) back := by
  induction front generalizing start with
  | nil => rfl
  | cons piece front ih =>
    cases piece <;>
      simp only [List.cons_append, marks, ih, List.flatMap_cons, List.length_append, given,
        Nat.add_assoc]

theorem marks_push (start : Nat) (a : α) (pieces : List (Segment α)) :
    marks start (push a pieces) = marks (start + 1) pieces := by
  unfold push
  split
  · rw [marks, marks, List.length_cons, Nat.add_assoc, Nat.add_comm 1]
  · rfl

theorem mem_marks_bounds {start : Nat} {pieces : List (Segment α)} {o : Occurrence α}
    (h : o ∈ marks start pieces) :
    start ≤ o.place ∧ o.span.stop ≤ start + (pieces.flatMap given).length := by
  induction pieces generalizing start with
  | nil => cases h
  | cons piece rest ih =>
    rw [List.flatMap_cons, List.length_append]
    cases piece with
    | untouched text =>
      have := ih h
      simp only [given]
      omega
    | replaced phrase =>
      rcases List.mem_cons.mp h with rfl | hmem
      · simp only [given, Occurrence.span, Span.ofWord]
        omega
      · have := ih hmem
        simp only [given]
        omega

theorem map_phrase_marks (start : Nat) (pieces : List (Segment α)) (phrase : Phrase α) :
    (∃ place, ⟨phrase, place⟩ ∈ marks start pieces) ↔ replaced phrase ∈ pieces := by
  induction pieces generalizing start with
  | nil => simp [marks]
  | cons piece rest ih =>
    cases piece with
    | untouched text => simpa [marks] using ih (start + text.length)
    | replaced done =>
      simp only [marks, List.mem_cons, Occurrence.mk.injEq, exists_or, exists_and_left, ih,
        exists_eq, and_true, replaced.injEq]

theorem countP_marks (start : Nat) (pieces : List (Segment α)) (p : Phrase α → Bool)
    (q : Segment α → Bool) (huntouched : ∀ text, q (.untouched text) = false)
    (hreplaced : ∀ phrase, q (.replaced phrase) = p phrase) :
    (marks start pieces).countP (fun o => p o.phrase) = pieces.countP q := by
  induction pieces generalizing start with
  | nil => rfl
  | cons piece rest ih =>
    cases piece with
    | untouched text => rw [marks, ih, List.countP_cons, huntouched]; rfl
    | replaced phrase => rw [marks, List.countP_cons, ih, List.countP_cons, hreplaced]

/-- The chosen occurrences are the marks of the pieces, and others that end before the pieces
begin. -/
structure Tracks (chosen : List (Occurrence α)) (start : Nat) (pieces : List (Segment α)) : Prop
    where
  /-- Every mark of the pieces is chosen. -/
  mem_of_mem_marks : ∀ o ∈ marks start pieces, o ∈ chosen
  /-- Every other chosen occurrence ends before. -/
  mem_marks_or_stop_le : ∀ c ∈ chosen, c ∈ marks start pieces ∨ c.span.stop ≤ start

namespace Tracks

variable {chosen : List (Occurrence α)} {start : Nat} {rest : List (Segment α)}

theorem of_perm {pieces : List (Segment α)} (h : (marks start pieces).Perm chosen) :
    Tracks chosen start pieces :=
  ⟨fun _ ho => h.mem_iff.1 ho, fun _ hc => .inl (h.mem_iff.2 hc)⟩

/-- The chosen occurrences leave an open piece clear. -/
theorem clear {text : List α} (h : Tracks chosen start (untouched text :: rest)) :
    ∀ c ∈ chosen, start + text.length ≤ c.place ∨ c.span.stop ≤ start := by
  intro c hc
  rcases h.mem_marks_or_stop_le c hc with hmem | hstop
  · rw [marks] at hmem
    exact .inl (mem_marks_bounds hmem).1
  · exact .inr hstop

theorem of_untouched {text : List α} (h : Tracks chosen start (untouched text :: rest)) :
    Tracks chosen (start + text.length) rest :=
  ⟨h.mem_of_mem_marks, fun c hc =>
    (h.mem_marks_or_stop_le c hc).imp_right Nat.le_add_right_of_le⟩

/-- Occurrences that end with an open piece may be added to those before it. -/
theorem append {text : List α} (h : Tracks chosen start (untouched text :: rest))
    {new : List (Occurrence α)} (hnew : ∀ c ∈ new, c.span.stop ≤ start + text.length) :
    Tracks (chosen ++ new) (start + text.length) rest := by
  refine ⟨fun o ho => List.mem_append_left new (h.mem_of_mem_marks o ho), ?_⟩
  intro c hc
  rcases List.mem_append.1 hc with hold | hc
  · exact h.of_untouched.mem_marks_or_stop_le c hold
  · exact .inr (hnew c hc)

theorem mem_of_replaced {phrase : Phrase α} (h : Tracks chosen start (replaced phrase :: rest)) :
    ⟨phrase, start⟩ ∈ chosen :=
  h.mem_of_mem_marks _ List.mem_cons_self

/-- Any other chosen occurrence begins after a replaced piece or ends before it. -/
theorem eq_or_clear {phrase : Phrase α} (h : Tracks chosen start (replaced phrase :: rest)) :
    ∀ c ∈ chosen, c = ⟨phrase, start⟩ ∨
      start + phrase.source.length ≤ c.place ∨ c.span.stop ≤ start := by
  intro c hc
  rcases h.mem_marks_or_stop_le c hc with hmem | hstop
  · rcases List.mem_cons.1 hmem with heq | hmem
    · exact .inl heq
    · exact .inr (.inl (mem_marks_bounds hmem).1)
  · exact .inr (.inr hstop)

theorem of_replaced {phrase : Phrase α} (h : Tracks chosen start (replaced phrase :: rest)) :
    Tracks chosen (start + phrase.source.length) rest := by
  refine ⟨fun o ho => h.mem_of_mem_marks o (List.mem_cons_of_mem _ ho), ?_⟩
  intro c hc
  rcases h.mem_marks_or_stop_le c hc with hmem | hstop
  · rcases List.mem_cons.1 hmem with rfl | hmem
    · exact .inr (Nat.le_refl _)
    · exact .inl hmem
  · exact .inr (Nat.le_add_right_of_le hstop)

end Tracks

/-! ### One phrase -/

section

variable [DecidableEq α] {phrase : Phrase α} {whole : List α}

/-- The occurrences of a phrase that begin in the `count` places from `start` on. -/
def occurrencesFrom (phrase : Phrase α) (whole : List α) (start count : Nat) :
    List (Occurrence α) :=
  ((List.range' start count).filter fun place => OccursAt phrase.source whole place).map
    (⟨phrase, ·⟩)

theorem occurrencesOf_eq (phrase : Phrase α) (whole : List α) :
    occurrencesOf whole phrase = occurrencesFrom phrase whole 0 whole.length := by
  rw [occurrencesOf, places, occurrencesFrom, List.range_eq_range']

theorem occurrencesFrom_add (phrase : Phrase α) (whole : List α) (start m n : Nat) :
    occurrencesFrom phrase whole start (m + n) =
      occurrencesFrom phrase whole start m ++ occurrencesFrom phrase whole (start + m) n := by
  rw [occurrencesFrom, ← List.range'_append_1, List.filter_append, List.map_append]
  rfl

theorem mem_occurrencesFrom {start count : Nat} {o : Occurrence α}
    (h : o ∈ occurrencesFrom phrase whole start count) :
    o.phrase = phrase ∧ start ≤ o.place ∧ o.place < start + count ∧
      OccursAt phrase.source whole o.place := by
  obtain ⟨place, hplace, rfl⟩ := List.mem_map.1 h
  obtain ⟨hrange, hocc⟩ := List.mem_filter.1 hplace
  obtain ⟨hge, hlt⟩ := List.mem_range'_1.1 hrange
  exact ⟨rfl, hge, hlt, of_decide_eq_true hocc⟩

theorem occurrencesFrom_one_of_occursAt {start : Nat} (h : OccursAt phrase.source whole start) :
    occurrencesFrom phrase whole start 1 = [⟨phrase, start⟩] := by
  simp [occurrencesFrom, h]

/-- Where all places are covered by chosen occurrences, nothing is chosen. -/
theorem foldl_consider_of_covers (hne : phrase.source ≠ []) {chosen : List (Occurrence α)}
    {start count : Nat}
    (h : ∀ place, start ≤ place → place < start + count → ∃ c ∈ chosen, c.span.Covers place) :
    (occurrencesFrom phrase whole start count).foldl consider chosen = chosen := by
  apply foldl_consider_of_meets
  intro o ho
  obtain ⟨hphrase, hge, hlt, -⟩ := mem_occurrencesFrom ho
  obtain ⟨c, hc, hcovers⟩ := h o.place hge hlt
  exact ⟨c, hc, Span.meets_iff.2 ⟨o.place, Occurrence.covers_place (hphrase ▸ hne), hcovers⟩⟩

/-- An occurrence that meets nothing is chosen, and those of the phrase that begin inside it are
not. -/
theorem foldl_consider_of_occursAt (hne : phrase.source ≠ []) {chosen : List (Occurrence α)}
    {start : Nat} (hocc : OccursAt phrase.source whole start)
    (hfree : ∀ c ∈ chosen, ¬ (Span.ofWord start phrase.source).Meets c.span) :
    (occurrencesFrom phrase whole start phrase.source.length).foldl consider chosen =
      chosen ++ [⟨phrase, start⟩] := by
  have hpos : 0 < phrase.source.length := List.length_pos_of_ne_nil hne
  have hlen : phrase.source.length = 1 + (phrase.source.length - 1) := by omega
  rw [hlen, occurrencesFrom_add, List.foldl_append, occurrencesFrom_one_of_occursAt hocc,
    List.foldl_cons, List.foldl_nil, consider_of_not_meets hfree]
  apply foldl_consider_of_covers hne
  intro place hge hlt
  refine ⟨⟨phrase, start⟩, List.mem_append_right _ (List.mem_singleton.2 rfl), ?_⟩
  simp only [Span.Covers, Occurrence.span, Span.ofWord]
  omega

/-- An occurrence that does not fit into the open piece is not chosen: it runs over the end of the
piece, into a chosen occurrence. -/
theorem foldl_consider_of_not_prefix {chosen : List (Occurrence α)} {start : Nat}
    {text after : List α} (hwhole : whole.drop start = text ++ after)
    (hafter : after ≠ [] → ∃ c ∈ chosen, c.span.Covers (start + text.length))
    (hpre : ¬ phrase.source <+: text) :
    (occurrencesFrom phrase whole start 1).foldl consider chosen = chosen := by
  apply foldl_consider_of_meets
  intro o ho
  obtain ⟨hphrase, hge, hlt, hocc⟩ := mem_occurrencesFrom ho
  have hplace : o.place = start := by omega
  rw [hplace, OccursAt, hwhole] at hocc
  have hlong : text.length < phrase.source.length := by
    by_contra hshort
    exact hpre (List.prefix_of_prefix_length_le hocc (List.prefix_append _ _) (by omega))
  have hne_after : after ≠ [] := by
    rintro rfl
    have := hocc.length_le
    rw [List.append_nil] at this
    omega
  obtain ⟨c, hc, hcovers⟩ := hafter hne_after
  refine ⟨c, hc, Span.meets_iff.2 ⟨start + text.length, ?_, hcovers⟩⟩
  simp only [Span.Covers, Occurrence.span, Span.ofWord, hphrase, hplace]
  omega

/-- **Within an open piece, choosing is what `cut` does.** The open piece is free of chosen
occurrences, and ends where the text ends or where a chosen occurrence stands. -/
theorem foldl_consider_cut (hne : phrase.source ≠ []) {text after : List α} {start : Nat}
    {chosen : List (Occurrence α)} (hwhole : whole.drop start = text ++ after)
    (hafter : after ≠ [] → ∃ c ∈ chosen, c.span.Covers (start + text.length))
    (hfree : ∀ c ∈ chosen, ¬ c.span.Meets ⟨start, start + text.length⟩) :
    (occurrencesFrom phrase whole start text.length).foldl consider chosen =
      chosen ++ marks start (cut phrase text) := by
  have hpos : 0 < phrase.source.length := List.length_pos_of_ne_nil hne
  fun_induction cut phrase text generalizing start chosen with
  | case1 => exact (List.append_nil _).symm
  | case2 a rest h ih =>
    have hpre : phrase.source <+: a :: rest := List.isPrefixOf_iff_prefix.1 h.2
    have hle : phrase.source.length ≤ rest.length + 1 := by simpa using hpre.length_le
    have hlen : (a :: rest).length =
        phrase.source.length + (rest.drop (phrase.source.length - 1)).length := by
      rw [List.length_cons, List.length_drop]
      omega
    have hocc : OccursAt phrase.source whole start := by
      rw [OccursAt, hwhole]
      exact hpre.trans (List.prefix_append _ _)
    rw [hlen] at hafter hfree ⊢
    have hfirst : ∀ c ∈ chosen, ¬ (Span.ofWord start phrase.source).Meets c.span := by
      intro c hc hmeets
      refine hfree c hc (hmeets.symm.mono (Nat.le_refl start) ?_)
      exact Nat.add_le_add_left (Nat.le_add_right _ _) start
    rw [occurrencesFrom_add, List.foldl_append, foldl_consider_of_occursAt hne hocc hfirst, ih]
    · rw [marks, List.append_assoc, List.singleton_append]
    · rw [← List.drop_drop, hwhole, List.drop_append_of_le_length hle,
        drop_length_sub_one hne a rest]
    · intro hne_after
      obtain ⟨c, hc, hcovers⟩ := hafter hne_after
      exact ⟨c, List.mem_append_left _ hc, by rwa [Nat.add_assoc]⟩
    · intro c hc hmeets
      rcases List.mem_append.mp hc with hc | hc
      · refine hfree c hc (hmeets.mono (Nat.le_add_right start _) ?_)
        exact Nat.le_of_eq (Nat.add_assoc _ _ _)
      · rw [List.mem_singleton.1 hc] at hmeets
        simp only [Span.Meets, Occurrence.span, Span.ofWord] at hmeets
        omega
  | case3 a rest h ih =>
    have hpre : ¬ phrase.source <+: a :: rest := fun hpre =>
      h ⟨hne, List.isPrefixOf_iff_prefix.2 hpre⟩
    have hskip := foldl_consider_of_not_prefix hwhole hafter hpre
    rw [List.length_cons, Nat.add_comm rest.length 1] at hafter hfree ⊢
    rw [occurrencesFrom_add, List.foldl_append, hskip, marks_push, ih]
    · rw [← List.drop_drop, hwhole]
      rfl
    · rwa [Nat.add_assoc]
    · intro c hc hmeets
      refine hfree c hc (hmeets.mono (Nat.le_add_right start 1) ?_)
      exact Nat.le_of_eq (Nat.add_assoc _ _ _)

/-- **Over all pieces, choosing the occurrences of one phrase is what `refine` does.** -/
theorem foldl_consider_refine (hne : phrase.source ≠ []) {pieces : List (Segment α)} {start : Nat}
    {chosen : List (Occurrence α)} (hwhole : whole.drop start = pieces.flatMap given)
    (hsep : Separated pieces) (hsource : ∀ done, replaced done ∈ pieces → done.source ≠ [])
    (htracks : Tracks chosen start pieces) :
    ∃ new, (occurrencesFrom phrase whole start (pieces.flatMap given).length).foldl consider
        chosen = chosen ++ new ∧
      (marks start (refine pieces phrase)).Perm (marks start pieces ++ new) := by
  induction pieces generalizing start chosen with
  | nil => exact ⟨[], (List.append_nil _).symm, .refl _⟩
  | cons piece rest ih =>
    have hsource' : ∀ done, replaced done ∈ rest → done.source ≠ [] :=
      fun done hdone => hsource done (List.mem_cons_of_mem _ hdone)
    have hwhole' : whole.drop (start + piece.given.length) = rest.flatMap given := by
      rw [← List.drop_drop, hwhole, List.flatMap_cons, List.drop_left]
    rw [List.flatMap_cons, List.length_append, occurrencesFrom_add, List.foldl_append]
    cases piece with
    | replaced done =>
      have hdone : ⟨done, start⟩ ∈ chosen := htracks.mem_of_replaced
      -- no place of a replaced piece is free
      have hskip : (occurrencesFrom phrase whole start (given (replaced done)).length).foldl
          consider chosen = chosen :=
        foldl_consider_of_covers hne fun place hge hlt => ⟨_, hdone, hge, hlt⟩
      obtain ⟨new, hnew, hperm⟩ := ih hwhole' hsep.of_cons hsource' htracks.of_replaced
      exact ⟨new, by rw [hskip, hnew], hperm.cons _⟩
    | untouched text =>
      rw [given] at hwhole' ⊢
      -- what follows the piece is the end of the text or a replaced piece
      have hafter : rest.flatMap given ≠ [] →
          ∃ c ∈ chosen, c.span.Covers (start + text.length) := by
        intro hrest
        cases rest with
        | nil => exact absurd rfl hrest
        | cons next rest =>
          cases next with
          | untouched first => exact absurd ⟨trivial, trivial⟩ hsep.rel
          | replaced done =>
            have hpos := List.length_pos_of_ne_nil (hsource' done List.mem_cons_self)
            refine ⟨_, htracks.of_untouched.mem_of_replaced, ?_⟩
            simp only [Span.Covers, Occurrence.span, Span.ofWord]
            omega
      have hfree : ∀ c ∈ chosen, ¬ c.span.Meets ⟨start, start + text.length⟩ := by
        intro c hc hmeets
        have hclear := htracks.clear c hc
        simp only [Span.Meets, Occurrence.span, Span.ofWord] at hmeets hclear
        omega
      have hcut : (occurrencesFrom phrase whole start text.length).foldl consider chosen =
          chosen ++ marks start (cut phrase text) := foldl_consider_cut hne hwhole hafter hfree
      have hend : ∀ c ∈ marks start (cut phrase text), c.span.stop ≤ start + text.length := by
        intro c hc
        have hstop := (mem_marks_bounds hc).2
        rwa [flatMap_given_cut] at hstop
      obtain ⟨new, hnew, hperm⟩ := ih hwhole' hsep.of_cons hsource' (htracks.append hend)
      refine ⟨marks start (cut phrase text) ++ new, ?_, ?_⟩
      · rw [hcut, hnew, List.append_assoc]
      · rw [refine_untouched_cons, marks_append, flatMap_given_cut, marks]
        refine (hperm.append_left _).trans ?_
        rw [← List.append_assoc, ← List.append_assoc]
        exact List.perm_append_comm.append_right new

/-! ### All phrases -/

theorem perm_marks_foldl_refine {text : List α} {phrases : List (Phrase α)}
    {pieces : List (Segment α)} {chosen : List (Occurrence α)}
    (hphrases : ∀ p ∈ phrases, p.source ≠ []) (hgiven : pieces.flatMap given = text)
    (hsep : Separated pieces) (hsource : ∀ done, replaced done ∈ pieces → done.source ≠ [])
    (hperm : (marks 0 pieces).Perm chosen) :
    (marks 0 (phrases.foldl refine pieces)).Perm
      ((occurrences phrases text).foldl consider chosen) := by
  induction phrases generalizing pieces chosen with
  | nil => exact hperm
  | cons phrase phrases ih =>
    have hne := hphrases phrase List.mem_cons_self
    have hwhole : text.drop 0 = pieces.flatMap given := by rw [List.drop_zero, hgiven]
    obtain ⟨new, hnew, hperm'⟩ :=
      foldl_consider_refine hne hwhole hsep hsource (Tracks.of_perm hperm)
    rw [hgiven] at hnew
    rw [occurrences, List.flatMap_cons, List.foldl_append, occurrencesOf_eq, hnew]
    refine ih (fun p hp => hphrases p (List.mem_cons_of_mem _ hp)) ?_ (hsep.refine phrase) ?_ ?_
    · rw [flatMap_given_refine, hgiven]
    · intro done hdone
      rcases mem_refine.1 hdone with ⟨_, -, hcut⟩ | ⟨_, heq, hmem⟩
      · rw [eq_of_replaced_mem_cut hcut]
        exact hne
      · exact hsource done (heq ▸ hmem)
    · exact hperm'.trans (hperm.append_right new)

/-- **The replaced pieces of a pass are the chosen occurrences.** -/
theorem perm_marks_select {phrases : List (Phrase α)} (h : ∀ p ∈ phrases, p.source ≠ [])
    (text : List α) :
    (marks 0 (segments phrases text)).Perm (select (occurrences phrases text)) := by
  refine perm_marks_foldl_refine h (List.append_nil text) (List.IsChain.singleton _) ?_ (.refl _)
  intro done hdone
  cases List.mem_singleton.1 hdone

end

end Phrasebook
