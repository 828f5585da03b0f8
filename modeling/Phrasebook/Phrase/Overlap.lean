import Phrasebook.Phrase.Basic
/-!
# How a source and an inserted target can share symbols

A target that has been put into a text gets new neighbours. Another source can then turn up inside
it, around it, or across one of its edges. The tests of this module decide from the two words alone
whether some neighbours make that happen.

## Main definitions

* `occursIn`: a word stands somewhere in another one.
* `tailBegins`: some non-empty tail of a word is the beginning of another one.
* `straddles`: a target lies inside a source, or an end of it begins the source, or a beginning of
  it ends the source.

## Implementation notes

The two edges differ in direction only: a beginning of `target` ends `source` exactly when an end
of the reversed target begins the reversed source, so `tailBegins` serves both. It is applied to
`target.tail`, which leaves the proper ends of `target`.
-/

namespace Phrasebook

variable {α : Type} [DecidableEq α]

/-- The word `needle` stands somewhere in the word `hay`. -/
def occursIn (needle : List α) : List α → Bool
  | [] => needle.isEmpty
  | a :: rest => needle.isPrefixOf (a :: rest) || occursIn needle rest

theorem occursIn_iff {needle hay : List α} :
    occursIn needle hay = true ↔ ∃ before after, hay = before ++ needle ++ after := by
  induction hay with
  | nil =>
    simp only [occursIn, List.isEmpty_iff]
    constructor
    · rintro rfl
      exact ⟨[], [], rfl⟩
    · rintro ⟨before, after, h⟩
      simp_all
  | cons a rest ih =>
    rw [occursIn, Bool.or_eq_true, ih, List.isPrefixOf_iff_prefix]
    constructor
    · rintro (⟨after, h⟩ | ⟨before, after, rfl⟩)
      · exact ⟨[], after, h.symm⟩
      · exact ⟨a :: before, after, rfl⟩
    · rintro ⟨before, after, h⟩
      cases before with
      | nil => exact .inl ⟨after, h.symm⟩
      | cons b before =>
        simp only [List.cons_append, List.cons.injEq] at h
        exact .inr ⟨before, after, h.2⟩

/-- Some non-empty tail of the word is the beginning of `word`. -/
def tailBegins : List α → List α → Bool
  | [], _ => false
  | a :: rest, word => (a :: rest).isPrefixOf word || tailBegins rest word

theorem tailBegins_iff {text word : List α} :
    tailBegins text word = true ↔
      ∃ before tail after, tail ≠ [] ∧ text = before ++ tail ∧ word = tail ++ after := by
  induction text with
  | nil =>
    constructor
    · intro h
      simp [tailBegins] at h
    · rintro ⟨before, tail, after, hne, h, -⟩
      exact absurd (List.append_eq_nil_iff.1 h.symm).2 hne
  | cons a rest ih =>
    rw [tailBegins, Bool.or_eq_true, ih, List.isPrefixOf_iff_prefix]
    constructor
    · rintro (⟨after, h⟩ | ⟨before, tail, after, hne, rfl, rfl⟩)
      · exact ⟨[], a :: rest, after, List.cons_ne_nil a rest, rfl, h.symm⟩
      · exact ⟨a :: before, tail, after, hne, rfl, rfl⟩
    · rintro ⟨before, tail, after, hne, h, rfl⟩
      cases before with
      | nil => exact .inl ⟨after, by rw [h, List.nil_append]⟩
      | cons b before =>
        simp only [List.cons_append, List.cons.injEq] at h
        exact .inr ⟨before, tail, after, hne, h.2, rfl⟩

/-- The source can be formed across an edge of the inserted target, or around it: the target sits
inside the source, or a proper end of the target begins the source, or a proper beginning of the
target ends it. -/
def straddles (target source : List α) : Bool :=
  occursIn target source ||
    tailBegins target.tail source ||
    tailBegins target.reverse.tail source.reverse

end Phrasebook
