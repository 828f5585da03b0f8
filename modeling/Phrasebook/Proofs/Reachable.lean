import Phrasebook.Phrase.Shipped
import Phrasebook.Proofs.Consistent
/-!
# The tables that a program can hold

A table comes from a list of phrases, from the program itself, or from phrases put over another
table. Only the first and the last go through validation when the program runs. The phrases of all
of them are consistent.

## Main definitions

* `PhraseTable.Reachable`: the tables that a program can come to hold.

## Main results

* `PhraseTable.Reachable.consistent`: the phrases of every reachable table are consistent, the
  shipped tables included.
-/

namespace Phrasebook

namespace PhraseTable

/-- The tables that a program can come to hold. -/
inductive Reachable : PhraseTable → Prop where
  /-- A list of phrases that passes validation makes one. -/
  | ofList {phrases : List (Phrase Char)} {table : PhraseTable} (h : ofList phrases = .ok table) :
    Reachable table
  /-- So does either shipped table, without validation. -/
  | shipped (table : ShippedTable) : Reachable (shipped table)
  /-- And so do phrases put over such a table. -/
  | override {base table : PhraseTable} {overrides : List (Phrase Char)} (hbase : Reachable base)
    (h : base.override overrides = .ok table) : Reachable table

theorem consistent_listing (table : ShippedTable) : Phrase.Consistent table.listing := by
  rw [← Phrase.fault?_eq_none_iff]
  cases table <;>
    -- each string is turned into characters once, and not again in every comparison
    simp only [ShippedTable.listing, ShippedTable.pairs, ShippedTable.headingPairs,
      ShippedTable.glossaryPairs, List.map_cons, List.map_nil, String.reduceToList] <;>
    decide +kernel

/-- The overrides have to pass validation by themselves, and the result has to pass it again. -/
theorem override_eq_ok_iff {base table : PhraseTable} {overrides : List (Phrase Char)} :
    base.override overrides = .ok table ↔
      ∃ top, PhraseTable.ofList overrides = .ok top ∧
        PhraseTable.ofList (base.uncovered top ++ top.phrases) = .ok table := by
  rw [PhraseTable.override]
  constructor
  · intro h
    cases htop : PhraseTable.ofList overrides with
    | error fault =>
      rw [htop] at h
      cases h
    | ok top =>
      rw [htop] at h
      exact ⟨top, rfl, h⟩
  · rintro ⟨top, htop, h⟩
    rw [htop]
    exact h

/-- **The phrases of every reachable table are consistent.** -/
theorem Reachable.consistent {table : PhraseTable} (h : Reachable table) :
    Phrase.Consistent table.phrases := by
  cases h with
  | ofList h => exact consistent_of_ofList h
  | shipped table => exact (consistent_listing table).perm (perm_sorted _).symm
  | override _ h =>
    obtain ⟨top, -, h⟩ := override_eq_ok_iff.1 h
    exact consistent_of_ofList h

end PhraseTable

end Phrasebook
