import Mathlib.Data.List.Dedup
import Phrasebook.Proofs.Rearrangement
/-!
# Phrases put over others

A list of phrases put over another one replaces those phrases of it that share a source with one of
its own, and joins the rest. A table with overrides is the table of that list. The overrides have to
be a table by themselves first, but this asks for nothing new: what is consistent together is
consistent in part. The operation is associative, and so overrides can be put over each other before
they are put over a table.

## Main definitions

* `Phrase.uncovered`: the phrases that share no source with the overrides.
* `Phrase.overlay`: those phrases and the overrides.
* `TableError.BlamesTarget`: the fault is one of a target.

## Main results

* `Phrase.overlay_assoc`: the operation is associative.
* `PhraseTable.override_eq_ok_iff_ofList_overlay`: a table with overrides is validated as one list.
* `PhraseTable.meaning_of_override`: what it contains, and why it can fail.
* `PhraseTable.override_override`: overrides can be put over each other first.
-/

namespace Phrasebook

namespace Phrase

variable {phrases others overrides : List (Phrase Char)}

/-- The phrases whose source no override has. -/
def uncovered (phrases overrides : List (Phrase Char)) : List (Phrase Char) :=
  phrases.filter fun p => !overrides.any fun o => o.source = p.source

/-- The phrases with the overrides put over them. -/
def overlay (phrases overrides : List (Phrase Char)) : List (Phrase Char) :=
  uncovered phrases overrides ++ overrides

theorem uncovered_eq_filter (phrases overrides : List (Phrase Char)) :
    uncovered phrases overrides = phrases.filter fun p => p.source ∉ overrides.map source := by
  refine List.filter_congr fun p _ => ?_
  rw [Bool.eq_iff_iff, decide_eq_true_eq]
  simp

theorem mem_uncovered {p : Phrase Char} :
    p ∈ uncovered phrases overrides ↔ p ∈ phrases ∧ p.source ∉ overrides.map source := by
  rw [uncovered_eq_filter, List.mem_filter, decide_eq_true_eq]

theorem mem_overlay {p : Phrase Char} :
    p ∈ overlay phrases overrides ↔
      p ∈ phrases ∧ p.source ∉ overrides.map source ∨ p ∈ overrides := by
  rw [overlay, List.mem_append, mem_uncovered]

/-- The sources are those of both lists. -/
theorem mem_map_source_overlay {word : Text} :
    word ∈ (overlay phrases overrides).map source ↔
      word ∈ phrases.map source ∨ word ∈ overrides.map source := by
  rw [overlay, List.map_append, List.mem_append]
  constructor
  · rintro (h | h)
    · obtain ⟨p, hp, rfl⟩ := List.mem_map.1 h
      exact .inl (List.mem_map_of_mem (mem_uncovered.1 hp).1)
    · exact .inr h
  · intro h
    by_cases hword : word ∈ overrides.map source
    · exact .inr hword
    · obtain ⟨p, hp, rfl⟩ := List.mem_map.1 (h.resolve_right hword)
      exact .inl (List.mem_map_of_mem (mem_uncovered.2 ⟨hp, hword⟩))

/-- The order of the two lists goes no further than the order of the result. -/
theorem overlay_perm {overrides' : List (Phrase Char)} (h : phrases.Perm others)
    (hoverrides : overrides.Perm overrides') :
    (overlay phrases overrides).Perm (overlay others overrides') := by
  have hsources (word : Text) : word ∈ overrides.map source ↔ word ∈ overrides'.map source :=
    (hoverrides.map source).mem_iff
  have huncovered : uncovered phrases overrides = uncovered phrases overrides' := by
    simp only [uncovered_eq_filter, hsources]
  rw [overlay, huncovered]
  exact (h.filter _).append hoverrides

/-- **Putting phrases over others is associative.** -/
theorem overlay_assoc (bottom middle top : List (Phrase Char)) :
    overlay (overlay bottom middle) top = overlay bottom (overlay middle top) := by
  have hbottom :
      uncovered (uncovered bottom middle) top = uncovered bottom (overlay middle top) := by
    rw [uncovered_eq_filter, uncovered_eq_filter, uncovered_eq_filter, List.filter_filter]
    refine List.filter_congr fun p _ => ?_
    rw [← Bool.decide_and, decide_eq_decide, mem_map_source_overlay, not_or, and_comm]
  calc overlay (overlay bottom middle) top
      = uncovered (uncovered bottom middle) top ++ uncovered middle top ++ top := by
        rw [overlay, overlay, uncovered, List.filter_append, ← uncovered, ← uncovered]
    _ = overlay bottom (overlay middle top) := by
        rw [hbottom, List.append_assoc]
        rfl

/-- No source occurs twice, if none does in either list. -/
theorem nodup_map_source_overlay (h : (phrases.map source).Nodup)
    (hoverrides : (overrides.map source).Nodup) :
    ((overlay phrases overrides).map source).Nodup := by
  rw [overlay, List.map_append, List.nodup_append]
  refine ⟨h.sublist (List.filter_sublist.map source), hoverrides, ?_⟩
  rintro word hword _ hword' rfl
  obtain ⟨p, hp, rfl⟩ := List.mem_map.1 hword
  exact (mem_uncovered.1 hp).2 hword'

/-- What is consistent together is consistent in part. -/
theorem Consistent.sublist (h : Consistent phrases) (hsub : others.Sublist phrases) :
    Consistent others := by
  have hmem : ∀ p ∈ others, p ∈ phrases := fun p hp => hsub.subset hp
  exact ⟨fun p hp => h.source_ne_nil p (hmem p hp), h.nodup.sublist (hsub.map source),
    fun p hp hps o ho hos => h.not_occursIn p (hmem p hp) hps o (hmem o ho) hos,
    fun p hp hps o ho hos => h.not_straddles p (hmem p hp) hps o (hmem o ho) hos⟩

end Phrase

/-- The fault is that of a target, and not of a source by itself. -/
def TableError.BlamesTarget : TableError → Prop
  | .conflictingTarget .. | .overlappingTarget .. => True
  | .duplicatePhrase _ | .emptyPhrase _ => False

namespace Phrase

variable {phrases : List (Phrase Char)} {fault : TableError}

theorem blamesTarget_of_targetFault? {others : List (Phrase Char)} {p : Phrase Char}
    (h : targetFault? others p = some fault) : fault.BlamesTarget := by
  rw [targetFault?] at h
  split at h
  · cases h
    trivial
  · obtain ⟨o, -, rfl⟩ := Option.map_eq_some_iff.1 h
    trivial

/-- Where no source is empty or repeated, only targets are left to be at fault. -/
theorem blamesTarget_of_fault? (hsource : ∀ p ∈ phrases, p.source ≠ [])
    (hnodup : (phrases.map source).Nodup) (h : fault? phrases = some fault) :
    fault.BlamesTarget := by
  have hnone : sourceFault? [] phrases = none :=
    sourceFault?_eq_none_iff.2 ⟨hsource, hnodup, fun _ _ => List.not_mem_nil⟩
  rw [fault?, hnone] at h
  obtain ⟨p, -, hp⟩ := List.exists_of_findSome?_eq_some h
  exact blamesTarget_of_targetFault? hp

end Phrase

namespace PhraseTable

variable {base table : PhraseTable} {overrides : List (Phrase Char)}

/-- A look-up in a table finds nothing exactly for a word that is no source of it. -/
theorem uncovered_eq (base top : PhraseTable) :
    base.uncovered top = Phrase.uncovered base.phrases top.phrases := by
  rw [Phrase.uncovered_eq_filter]
  refine List.filter_congr fun p _ => ?_
  have hnone : top.find? p.source = none ↔ p.source ∉ top.phrases.map Phrase.source := by
    simp [find?]
  rw [Bool.eq_iff_iff, Option.isNone_iff_eq_none, hnone, decide_eq_true_eq]

theorem override_eq (base : PhraseTable) (overrides : List (Phrase Char)) :
    base.override overrides =
      (ofList overrides >>= fun top => ofList (Phrase.overlay base.phrases top.phrases)) := by
  simp only [override, uncovered_eq, Phrase.overlay]

/-- What a table with overrides is made of, up to its order. -/
theorem overlay_perm_of_ofList {top : PhraseTable} (h : ofList overrides = .ok top) :
    (Phrase.overlay base.phrases top.phrases).Perm (Phrase.overlay base.phrases overrides) := by
  obtain ⟨-, rfl⟩ := ofList_eq_ok_iff.1 h
  exact Phrase.overlay_perm (.refl _) (perm_sorted overrides)

/-- **A table with overrides is validated as one list.** To validate the overrides alone asks for
nothing more, since they are a part of that list. -/
theorem override_eq_ok_iff_ofList_overlay :
    base.override overrides = .ok table ↔
      ofList (Phrase.overlay base.phrases overrides) = .ok table := by
  rw [override_eq]
  constructor
  · intro h
    obtain ⟨top, htop, htable⟩ := exists_eq_ok_of_bind h
    exact ofList_of_perm htable (overlay_perm_of_ofList htop)
  · intro h
    have hcons : Phrase.Consistent overrides :=
      (ofList_eq_ok_iff.1 h).1.sublist (List.sublist_append_right _ overrides)
    have htop : ofList overrides = .ok (sorted overrides) := ofList_eq_ok_iff.2 ⟨hcons, rfl⟩
    rw [htop]
    exact ofList_of_perm h (overlay_perm_of_ofList htop).symm

/-- The phrases of a table with overrides. -/
theorem perm_overlay_of_override (h : base.override overrides = .ok table) :
    table.phrases.Perm (Phrase.overlay base.phrases overrides) := by
  obtain ⟨-, rfl⟩ := ofList_eq_ok_iff.1 (override_eq_ok_iff_ofList_overlay.1 h)
  exact perm_sorted _

theorem nodup_of_override (h : base.override overrides = .ok table) :
    (table.phrases.map Phrase.source).Nodup :=
  (consistent_of_ofList (override_eq_ok_iff_ofList_overlay.1 h)).nodup

/-- Overrides that are no table are refused for their own fault, and others for a target. -/
theorem fault_of_override (h : base.Reachable) {fault : TableError}
    (hfault : base.override overrides = .error fault) :
    ofList overrides = .error fault ∨
      (∃ top, ofList overrides = .ok top) ∧ fault.BlamesTarget := by
  rw [override_eq] at hfault
  cases htop : ofList overrides with
  | error own =>
    rw [htop] at hfault
    exact .inl hfault
  | ok top =>
    rw [htop] at hfault
    have hbase := h.consistent
    have hcons := consistent_of_ofList htop
    have hsource : ∀ p ∈ Phrase.overlay base.phrases top.phrases, p.source ≠ [] := by
      intro p hp
      rcases Phrase.mem_overlay.1 hp with ⟨hp, -⟩ | hp
      · exact hbase.source_ne_nil p hp
      · exact hcons.source_ne_nil p hp
    have hnodup := Phrase.nodup_map_source_overlay hbase.nodup hcons.nodup
    have hfault? := ofList_eq_error_iff.1 hfault
    exact .inr ⟨⟨top, rfl⟩, Phrase.blamesTarget_of_fault? hsource hnodup hfault?⟩

/-- An override gives its source its target. -/
theorem find?_of_override (h : base.override overrides = .ok table) {p : Phrase Char}
    (hp : p ∈ overrides) : table.find? p.source = some p.target := by
  rw [find?_eq_some_iff (nodup_of_override h), (perm_overlay_of_override h).mem_iff,
    Phrase.mem_overlay]
  exact .inr hp

/-- Any other word has the target that it had before. -/
theorem find?_of_override_of_not_mem (hbase : (base.phrases.map Phrase.source).Nodup)
    (h : base.override overrides = .ok table) {word : Text}
    (hword : word ∉ overrides.map Phrase.source) : table.find? word = base.find? word := by
  have hnot (target : Text) : (⟨word, target⟩ : Phrase Char) ∉ overrides := fun hmem =>
    hword (List.mem_map_of_mem hmem)
  refine Option.ext fun target => ?_
  rw [find?_eq_some_iff (nodup_of_override h), find?_eq_some_iff hbase,
    (perm_overlay_of_override h).mem_iff, Phrase.mem_overlay]
  simp only [hword, hnot, not_false_eq_true, and_true, or_false]

/-- There are as many phrases as different sources. -/
theorem size_of_override (h : base.override overrides = .ok table) :
    table.size = ((base.phrases ++ overrides).map Phrase.source).dedup.length := by
  have hsources : (table.phrases.map Phrase.source).Perm
      ((base.phrases ++ overrides).map Phrase.source).dedup := by
    refine (List.perm_ext_iff_of_nodup (nodup_of_override h) (List.nodup_dedup _)).2 fun word => ?_
    rw [((perm_overlay_of_override h).map Phrase.source).mem_iff, Phrase.mem_map_source_overlay,
      List.mem_dedup, List.map_append, List.mem_append]
  rw [size, ← hsources.length_eq, List.length_map]

/-- **What a table with overrides is.** There is one exactly if the phrases of the table that share
no source with an override, and the overrides after them, pass validation as one list; it is the
table of that list. In it, an override gives its source its target, and any other word has the
target that it had before; and there are as many phrases as the two lists have sources. If there is
none, either the overrides are refused by themselves, for the fault that they have alone, or the
fault is that of a target. -/
theorem meaning_of_override (h : base.Reachable) (overrides : List (Phrase Char)) :
    (∀ table, base.override overrides = .ok table ↔
      ofList (Phrase.overlay base.phrases overrides) = .ok table) ∧
    (∀ table, base.override overrides = .ok table →
      (∀ p ∈ overrides, table.find? p.source = some p.target) ∧
      (∀ word, word ∉ overrides.map Phrase.source → table.find? word = base.find? word) ∧
      table.size = ((base.phrases ++ overrides).map Phrase.source).dedup.length) ∧
    ∀ fault, base.override overrides = .error fault →
      ofList overrides = .error fault ∨
        (∃ top, ofList overrides = .ok top) ∧ fault.BlamesTarget := by
  refine ⟨fun table => override_eq_ok_iff_ofList_overlay, fun table htable => ⟨?_, ?_, ?_⟩, ?_⟩
  · intro p hp
    exact find?_of_override htable hp
  · intro word hword
    exact find?_of_override_of_not_mem h.consistent.nodup htable hword
  · exact size_of_override htable
  · intro fault hfault
    exact fault_of_override h hfault

/-- A table with one phrase, whose target is the beginning of `AB`. -/
def beginning : PhraseTable :=
  ⟨[⟨['x'], ['A']⟩]⟩

/-- With another target for `x`, a phrase for `AB` can join the table. Alone it cannot: the target
`A` is to blame. -/
theorem meaning_of_override_beginning :
    beginning.Reachable ∧
      (∃ table, beginning.override [⟨['A', 'B'], ['z']⟩, ⟨['x'], ['Q']⟩] = .ok table ∧
        table.find? ['x'] = some ['Q'] ∧ table.size = 2) ∧
      ∃ fault, beginning.override [⟨['A', 'B'], ['z']⟩] = .error fault ∧ fault.BlamesTarget := by
  have h : beginning.Reachable :=
    .ofList (ofList_eq_ok_of_pairwise (by decide +kernel) (by decide +kernel))
  refine ⟨h, ?_, ?_⟩
  · obtain ⟨hiff, hok, -⟩ := meaning_of_override h [⟨['A', 'B'], ['z']⟩, ⟨['x'], ['Q']⟩]
    have htable := (hiff _).2 (ofList_eq_ok_of_pairwise (by decide +kernel) (by decide +kernel))
    obtain ⟨hfind, -, hsize⟩ := hok _ htable
    exact ⟨_, htable, hfind ⟨['x'], ['Q']⟩ (by decide), hsize⟩
  · obtain ⟨-, -, hfault⟩ := meaning_of_override h [⟨['A', 'B'], ['z']⟩]
    have htop : ofList [⟨['A', 'B'], ['z']⟩] = .ok ⟨[⟨['A', 'B'], ['z']⟩]⟩ :=
      ofList_eq_ok_of_pairwise (by decide +kernel) (by decide +kernel)
    have herror : beginning.override [⟨['A', 'B'], ['z']⟩] =
        .error (.overlappingTarget ['x'] ['A'] ['A', 'B']) := by
      rw [override_eq, htop]
      show ofList (Phrase.overlay beginning.phrases [⟨['A', 'B'], ['z']⟩]) = _
      exact ofList_eq_error_iff.2 (by decide +kernel)
    refine ⟨_, herror, ((hfault _ herror).resolve_left fun hown => ?_).2⟩
    rw [htop] at hown
    cases hown

/-! ### Overrides over overrides -/

/-- **Overrides can be put over each other first.** If a table with overrides takes further ones,
then the first ones are a table, which takes the further ones by itself; and its phrases put over
the table at once make the same table as the two one after the other. No phrase of the table that is
replaced on the way can get in between. -/
theorem override_override {base lower upper : PhraseTable} {first second : List (Phrase Char)}
    (hlower : base.override first = .ok lower) (hupper : lower.override second = .ok upper) :
    ∃ alone joint, ofList first = .ok alone ∧ alone.override second = .ok joint ∧
      base.override joint.phrases = .ok upper := by
  have hall : ofList (Phrase.overlay base.phrases (Phrase.overlay first second)) = .ok upper := by
    rw [← Phrase.overlay_assoc]
    exact ofList_of_perm (override_eq_ok_iff_ofList_overlay.1 hupper)
      (Phrase.overlay_perm (perm_overlay_of_override hlower) (.refl _))
  have hjoint : Phrase.Consistent (Phrase.overlay first second) :=
    (ofList_eq_ok_iff.1 hall).1.sublist (List.sublist_append_right _ _)
  obtain ⟨alone, halone, -⟩ := override_eq_ok_iff.1 hlower
  refine ⟨alone, sorted (Phrase.overlay first second), halone, ?_, ?_⟩
  · have hperm : alone.phrases.Perm first := (ofList_eq_ok_iff.1 halone).2 ▸ perm_sorted first
    exact override_eq_ok_iff_ofList_overlay.2 (ofList_of_perm (ofList_eq_ok_iff.2 ⟨hjoint, rfl⟩)
      (Phrase.overlay_perm hperm (.refl _)).symm)
  · exact override_eq_ok_iff_ofList_overlay.2 (ofList_of_perm hall
      (Phrase.overlay_perm (.refl _) (perm_sorted _)).symm)

/-- Put over the table of one phrase, the first overrides free it of the target `A`, and the second
ones bring in a source that begins with `A`. -/
theorem override_override_beginning :
    ∃ lower upper, beginning.override [⟨['x'], ['Q']⟩] = .ok lower ∧
      lower.override [⟨['A', 'B'], ['z']⟩] = .ok upper ∧
        ∃ alone joint, ofList [⟨['x'], ['Q']⟩] = .ok alone ∧
          alone.override [⟨['A', 'B'], ['z']⟩] = .ok joint ∧
            beginning.override joint.phrases = .ok upper := by
  have hlower : beginning.override [⟨['x'], ['Q']⟩] = .ok ⟨[⟨['x'], ['Q']⟩]⟩ :=
    override_eq_ok_iff_ofList_overlay.2
      (ofList_eq_ok_of_pairwise (by decide +kernel) (by decide +kernel))
  have hupper : (⟨[⟨['x'], ['Q']⟩]⟩ : PhraseTable).override [⟨['A', 'B'], ['z']⟩] =
      .ok ⟨[⟨['A', 'B'], ['z']⟩, ⟨['x'], ['Q']⟩]⟩ :=
    override_eq_ok_iff_ofList_overlay.2 (ofList_of_perm
      (ofList_eq_ok_of_pairwise (by decide +kernel) (by decide +kernel)) (List.Perm.swap _ _ _))
  exact ⟨_, _, hlower, hupper, override_override hlower hupper⟩

end PhraseTable

end Phrasebook
