import Phrasebook.Proofs.Consistent
import Phrasebook.Proofs.Pass
/-!
# The fault that is reported

A list of phrases can have many faults, and validation reports one of them. Faults of sources go
first: if some phrase has an empty source or one that an earlier phrase has, the first such phrase
is reported, whatever the targets are. Only a list without such a phrase has its targets looked at.
Then the first phrase whose target is at fault is reported, and with it the first source that its
target contains, or the first one that it straddles if it contains none. In this second part
identities do not count.

## Main definitions

* `IsFirst`: an element of a list has a property, and no element before it has.
* `Phrase.SoundSources`: no source of the list is empty or repeated.
* `Phrase.FirstFault`: the fault that a list of phrases is to be reported for.

## Main results

* `Phrase.sourceFault?_eq_some_iff`, `Phrase.targetFault?_eq_some_iff`: what the two parts of
  validation report.
* `PhraseTable.ofList_eq_error_iff_firstFault`: a list is refused for its first fault.
-/

namespace Phrasebook

/-! ### The first element with a property -/

section

variable {α β : Type} {P : α → Prop} {xs : List α} {x y : α}

/-- The element of the list has the property, and no element before it has. -/
def IsFirst (P : α → Prop) (xs : List α) (x : α) : Prop :=
  ∃ before after, xs = before ++ x :: after ∧ P x ∧ ∀ y ∈ before, ¬ P y

theorem isFirst_cons_of_pos (h : P y) : IsFirst P (y :: xs) x ↔ x = y := by
  constructor
  · rintro ⟨before, after, heq, -, hbefore⟩
    cases before with
    | nil => exact (List.cons.inj heq).1.symm
    | cons z before =>
      rw [(List.cons.inj heq).1] at h
      exact absurd h (hbefore z List.mem_cons_self)
  · rintro rfl
    exact ⟨[], xs, rfl, h, fun z hz => nomatch hz⟩

theorem isFirst_cons_of_neg (h : ¬ P y) : IsFirst P (y :: xs) x ↔ IsFirst P xs x := by
  constructor
  · rintro ⟨before, after, heq, hx, hbefore⟩
    cases before with
    | nil =>
      rw [(List.cons.inj heq).1] at h
      exact absurd hx h
    | cons z before =>
      exact ⟨before, after, (List.cons.inj heq).2, hx,
        fun w hw => hbefore w (List.mem_cons_of_mem _ hw)⟩
  · rintro ⟨before, after, rfl, hx, hbefore⟩
    exact ⟨y :: before, after, rfl, hx, List.forall_mem_cons.2 ⟨h, hbefore⟩⟩

/-- The first one of those that pass a test is the first one of all that passes it besides. -/
theorem isFirst_filter {test : α → Bool} :
    IsFirst P (xs.filter test) x ↔ IsFirst (fun y => test y = true ∧ P y) xs x := by
  induction xs with
  | nil => simp [IsFirst]
  | cons y xs ih =>
    by_cases htest : test y = true
    · rw [List.filter_cons_of_pos htest]
      by_cases hP : P y
      · rw [isFirst_cons_of_pos hP, isFirst_cons_of_pos ⟨htest, hP⟩]
      · rw [isFirst_cons_of_neg hP, isFirst_cons_of_neg (fun h => hP h.2), ih]
    · rw [List.filter_cons_of_neg htest, isFirst_cons_of_neg (fun h => htest h.1), ih]

theorem find?_eq_some_iff_isFirst {test : α → Bool} :
    xs.find? test = some x ↔ IsFirst (fun y => test y = true) xs x := by
  simp [List.find?_eq_some_iff_append, IsFirst, and_left_comm]

/-- A search for a value finds that of the first element that has one. -/
theorem findSome?_eq_some_iff_isFirst {f : α → Option β} {b : β} :
    xs.findSome? f = some b ↔ ∃ x, f x = some b ∧ IsFirst (fun y => f y ≠ none) xs x := by
  rw [List.findSome?_eq_some_iff]
  constructor
  · rintro ⟨before, x, after, rfl, hx, hbefore⟩
    exact ⟨x, hx, before, after, rfl, by simp [hx], by simpa using hbefore⟩
  · rintro ⟨x, hx, before, after, rfl, -, hbefore⟩
    exact ⟨before, x, after, rfl, hx, by simpa using hbefore⟩

end

namespace Phrase

variable {phrases : List (Phrase Char)} {fault : TableError}

/-! ### Faults of sources -/

/-- No source of the list is empty, and none is that of an earlier phrase. -/
def SoundSources (phrases : List (Phrase Char)) : Prop :=
  (∀ p ∈ phrases, p.source ≠ []) ∧ (phrases.map source).Nodup

theorem sourceFault?_nil_eq_none_iff : sourceFault? [] phrases = none ↔ SoundSources phrases := by
  simp [sourceFault?_eq_none_iff, SoundSources]

theorem sourceFault?_cons {seen : List Text} {p : Phrase Char} (hne : p.source ≠ [])
    (hseen : p.source ∉ seen) :
    sourceFault? seen (p :: phrases) = sourceFault? (p.source :: seen) phrases := by
  rw [sourceFault?, if_neg hne, if_neg hseen]

/-- **What is reported of a source.** The phrase is the first one whose source is empty or has been
seen, here or before. -/
theorem sourceFault?_eq_some_iff {seen : List Text} :
    sourceFault? seen phrases = some fault ↔
      ∃ before p after, phrases = before ++ p :: after ∧ sourceFault? seen before = none ∧
        (p.source = [] ∧ .emptyPhrase p.target = fault ∨
          p.source ≠ [] ∧ (p.source ∈ seen ∨ p.source ∈ before.map source) ∧
            .duplicatePhrase p.source = fault) := by
  constructor
  · intro h
    induction phrases generalizing seen with
    | nil => cases h
    | cons p phrases ih =>
      by_cases hne : p.source = []
      · rw [sourceFault?, if_pos hne] at h
        exact ⟨[], p, phrases, rfl, rfl, .inl ⟨hne, Option.some.inj h⟩⟩
      by_cases hseen : p.source ∈ seen
      · rw [sourceFault?, if_neg hne, if_pos hseen] at h
        exact ⟨[], p, phrases, rfl, rfl, .inr ⟨hne, .inl hseen, Option.some.inj h⟩⟩
      · rw [sourceFault?_cons hne hseen] at h
        obtain ⟨before, q, after, rfl, hbefore, hq⟩ := ih h
        refine ⟨p :: before, q, after, rfl, (sourceFault?_cons hne hseen).trans hbefore, ?_⟩
        refine hq.imp_right (.imp_right (.imp_left ?_))
        rw [List.map_cons, List.mem_cons, List.mem_cons]
        tauto
  · rintro ⟨before, p, after, rfl, hbefore, hp⟩
    induction before generalizing seen with
    | nil =>
      rw [List.nil_append, sourceFault?]
      rcases hp with ⟨hne, rfl⟩ | ⟨hne, hseen, rfl⟩
      · rw [if_pos hne]
      · rw [if_neg hne, if_pos (hseen.resolve_right (List.not_mem_nil))]
    | cons q before ih =>
      obtain ⟨hsource, -, hunseen⟩ := sourceFault?_eq_none_iff.1 hbefore
      have hne := hsource q List.mem_cons_self
      have hseen := hunseen q List.mem_cons_self
      rw [List.cons_append, sourceFault?_cons hne hseen]
      rw [sourceFault?_cons hne hseen] at hbefore
      refine ih hbefore (hp.imp_right (.imp_right (.imp_left ?_)))
      rw [List.map_cons, List.mem_cons, List.mem_cons]
      tauto

/-! ### Faults of targets -/

/-- The target of the phrase contains the source of `o`, which is no identity. -/
def Contains (p o : Phrase Char) : Prop :=
  ¬ o.IsIdentity ∧ o.source <:+: p.target

/-- The target of the phrase straddles the source of `o`, which is no identity. -/
def Straddles (p o : Phrase Char) : Prop :=
  ¬ o.IsIdentity ∧ straddles p.target o.source = true

/-- The phrase is no identity, and its target contains or straddles the source of one that is none
either. -/
def HasBadTarget (phrases : List (Phrase Char)) (p : Phrase Char) : Prop :=
  ¬ p.IsIdentity ∧ ∃ o ∈ phrases, p.Contains o ∨ p.Straddles o

theorem isFirst_substituting {P : Phrase Char → Prop} {p : Phrase Char} :
    IsFirst P (substituting phrases) p ↔ IsFirst (fun q => ¬ q.IsIdentity ∧ P q) phrases p := by
  simp [substituting, isFirst_filter]

/-- **What is reported of a target.** The source is the first one that the target contains, and the
first one that it straddles if it contains none. -/
theorem targetFault?_eq_some_iff {p : Phrase Char} :
    targetFault? (substituting phrases) p = some fault ↔
      (∃ o, IsFirst p.Contains phrases o ∧ .conflictingTarget p.source p.target o.source = fault) ∨
        (∀ o ∈ phrases, ¬ p.Contains o) ∧ ∃ o, IsFirst p.Straddles phrases o ∧
          .overlappingTarget p.source p.target o.source = fault := by
  have hcontains {o : Phrase Char} : IsFirst p.Contains phrases o ↔
      (substituting phrases).find? (fun o => occursIn o.source p.target) = some o := by
    simp only [find?_eq_some_iff_isFirst, isFirst_substituting, occursIn_iff_isInfix]
    rfl
  have hnone : (∀ o ∈ phrases, ¬ p.Contains o) ↔
      (substituting phrases).find? (fun o => occursIn o.source p.target) = none := by
    simp only [List.find?_eq_none, mem_substituting, occursIn_iff_isInfix, Contains, not_and,
      and_imp]
  have hstraddles {o : Phrase Char} : IsFirst p.Straddles phrases o ↔
      (substituting phrases).find? (fun o => straddles p.target o.source) = some o := by
    simp only [find?_eq_some_iff_isFirst, isFirst_substituting]
    rfl
  simp only [targetFault?, hcontains, hnone, hstraddles]
  cases (substituting phrases).find? fun o => occursIn o.source p.target <;> simp

theorem targetFault?_ne_none_iff {p : Phrase Char} :
    targetFault? (substituting phrases) p ≠ none ↔ ∃ o ∈ phrases, p.Contains o ∨ p.Straddles o := by
  rw [ne_eq, targetFault?_eq_none_iff]
  simp only [mem_substituting, Contains, Straddles, ← occursIn_iff_isInfix]
  grind

/-! ### The first fault -/

/-- The fault that a list of phrases is to be reported for. -/
inductive FirstFault (phrases : List (Phrase Char)) : TableError → Prop
  /-- The first phrase with a bad source has an empty one. -/
  | emptyPhrase {before after : List (Phrase Char)} {p : Phrase Char}
    (hlist : phrases = before ++ p :: after) (hbefore : SoundSources before)
    (hempty : p.source = []) :
    FirstFault phrases (.emptyPhrase p.target)
  /-- The first phrase with a bad source has that of an earlier phrase. -/
  | duplicatePhrase {before after : List (Phrase Char)} {p : Phrase Char}
    (hlist : phrases = before ++ p :: after) (hbefore : SoundSources before)
    (hne : p.source ≠ []) (hseen : p.source ∈ before.map source) :
    FirstFault phrases (.duplicatePhrase p.source)
  /-- All sources are sound, and the first bad target contains sources, of which this is the first
  one. -/
  | conflictingTarget {p o : Phrase Char} (hsources : SoundSources phrases)
    (hp : IsFirst (HasBadTarget phrases) phrases p) (ho : IsFirst p.Contains phrases o) :
    FirstFault phrases (.conflictingTarget p.source p.target o.source)
  /-- All sources are sound, and the first bad target contains none of them and straddles some, of
  which this is the first one. -/
  | overlappingTarget {p o : Phrase Char} (hsources : SoundSources phrases)
    (hp : IsFirst (HasBadTarget phrases) phrases p) (hnone : ∀ o ∈ phrases, ¬ p.Contains o)
    (ho : IsFirst p.Straddles phrases o) :
    FirstFault phrases (.overlappingTarget p.source p.target o.source)

/-- The first bad target, looked for among the phrases that are no identities. -/
theorem findSome?_targetFault?_eq_some_iff :
    (substituting phrases).findSome? (targetFault? (substituting phrases)) = some fault ↔
      ∃ p, targetFault? (substituting phrases) p = some fault ∧
        IsFirst (HasBadTarget phrases) phrases p := by
  simp only [findSome?_eq_some_iff_isFirst, isFirst_substituting, targetFault?_ne_none_iff]
  rfl

theorem firstFault_of_fault? (h : fault? phrases = some fault) : FirstFault phrases fault := by
  rw [fault?] at h
  cases hsource : sourceFault? [] phrases with
  | some own =>
    rw [hsource] at h
    cases h
    obtain ⟨before, p, after, hlist, hbefore, ⟨hempty, rfl⟩ | ⟨hne, hseen, rfl⟩⟩ :=
      sourceFault?_eq_some_iff.1 hsource
    · exact .emptyPhrase hlist (sourceFault?_nil_eq_none_iff.1 hbefore) hempty
    · exact .duplicatePhrase hlist (sourceFault?_nil_eq_none_iff.1 hbefore) hne
        (hseen.resolve_left List.not_mem_nil)
  | none =>
    rw [hsource] at h
    have hsound := sourceFault?_nil_eq_none_iff.1 hsource
    obtain ⟨p, hfault, hp⟩ := findSome?_targetFault?_eq_some_iff.1 h
    rcases targetFault?_eq_some_iff.1 hfault with ⟨o, ho, rfl⟩ | ⟨hnone, o, ho, rfl⟩
    · exact .conflictingTarget hsound hp ho
    · exact .overlappingTarget hsound hp hnone ho

/-- What is wrong with a source is reported whatever the targets are. -/
theorem fault?_of_sourceFault? (h : sourceFault? [] phrases = some fault) :
    fault? phrases = some fault := by
  rw [fault?, h]
  rfl

theorem fault?_of_targetFault? {p : Phrase Char} (hsound : SoundSources phrases)
    (hp : IsFirst (HasBadTarget phrases) phrases p)
    (h : targetFault? (substituting phrases) p = some fault) : fault? phrases = some fault := by
  rw [fault?, sourceFault?_nil_eq_none_iff.2 hsound]
  exact findSome?_targetFault?_eq_some_iff.2 ⟨p, h, hp⟩

/-- **Validation finds the first fault.** -/
theorem fault?_eq_some_iff : fault? phrases = some fault ↔ FirstFault phrases fault := by
  refine ⟨firstFault_of_fault?, fun h => ?_⟩
  cases h with
  | emptyPhrase hlist hbefore hempty =>
    exact fault?_of_sourceFault? (sourceFault?_eq_some_iff.2 ⟨_, _, _, hlist,
      sourceFault?_nil_eq_none_iff.2 hbefore, .inl ⟨hempty, rfl⟩⟩)
  | duplicatePhrase hlist hbefore hne hseen =>
    exact fault?_of_sourceFault? (sourceFault?_eq_some_iff.2 ⟨_, _, _, hlist,
      sourceFault?_nil_eq_none_iff.2 hbefore, .inr ⟨hne, .inr hseen, rfl⟩⟩)
  | conflictingTarget hsources hp ho =>
    exact fault?_of_targetFault? hsources hp (targetFault?_eq_some_iff.2 (.inl ⟨_, ho, rfl⟩))
  | overlappingTarget hsources hp hnone ho =>
    exact fault?_of_targetFault? hsources hp
      (targetFault?_eq_some_iff.2 (.inr ⟨hnone, _, ho, rfl⟩))

end Phrase

namespace PhraseTable

/-- **A list of phrases is refused for its first fault.** If some phrase has an empty source or that
of an earlier phrase, the first such phrase is reported, whatever the targets are. If there is none,
it is the first phrase that is no identity and whose target contains or straddles the source of a
phrase that is none either; with it stands the first such source that the target contains, or, if it
contains none, the first one that it straddles. -/
theorem ofList_eq_error_iff_firstFault {phrases : List (Phrase Char)} {fault : TableError} :
    ofList phrases = .error fault ↔ Phrase.FirstFault phrases fault :=
  ofList_eq_error_iff.trans Phrase.fault?_eq_some_iff

/-- The target `b` of `a` contains a source, but `a` has a second phrase further on. -/
example : ofList [⟨['a'], ['b']⟩, ⟨['b'], ['c']⟩, ⟨['a'], ['d']⟩] =
    .error (.duplicatePhrase ['a']) :=
  rfl

/-- Without that phrase, the target is reported for `b`, the first source that is no identity,
although the identity before it is inside the target as well. -/
example : ofList [⟨['c'], ['c']⟩, ⟨['a'], ['b', 'c']⟩, ⟨['b'], ['d']⟩] =
    .error (.conflictingTarget ['a'] ['b', 'c'] ['b']) :=
  rfl

end PhraseTable

end Phrasebook
