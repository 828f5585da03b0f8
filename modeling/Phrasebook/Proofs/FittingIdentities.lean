import Phrasebook.Proofs.Reachable
import Phrasebook.Proofs.SecondPass
/-!
# Identities that fit the targets

An identity does no harm if it cannot stand on an edge of an inserted target. It may be spelled by a
target, or inside one: then a second pass reserves a place there, and nothing else changes. Between
the targets the text is the one that the first pass has seen, and the second pass reserves the same
places in it, although the first pass has looked for them in longer pieces. The shipped tables have
only identities of this kind.

## Main definitions

* `Phrase.IdentitiesFit`: no identity overhangs a target.
* `PhraseTable.SettlesAtOnce`: a second pass over a text changes nothing.

## Main results

* `PhraseTable.second_pass_of_identitiesFit`: if the identities fit, that holds for every text; and
  the shipped tables are validated tables whose identities fit.
-/

namespace Phrasebook

namespace Phrase

variable {phrases : List (Phrase Char)}

/-- No source of an identity overhangs a target that a pass inserts. -/
def IdentitiesFit (phrases : List (Phrase Char)) : Prop :=
  ∀ p ∈ phrases, ¬ p.IsIdentity → ∀ identity ∈ phrases, identity.IsIdentity →
    ¬ Overhangs identity.source p.target

instance (phrases : List (Phrase Char)) : Decidable (IdentitiesFit phrases) :=
  inferInstanceAs (Decidable (∀ p ∈ phrases, _ → ∀ identity ∈ phrases, _ → ¬ _))

theorem IdentitiesFit.perm {others : List (Phrase Char)} (h : IdentitiesFit phrases)
    (hperm : phrases.Perm others) : IdentitiesFit others := by
  intro p hp hps identity hid
  exact h p (hperm.mem_iff.2 hp) hps identity (hperm.mem_iff.2 hid)

/-- With identities that fit, the targets enclose all sources. -/
theorem Consistent.encloses (h : Consistent phrases) (hfit : IdentitiesFit phrases) :
    ∀ p ∈ phrases, ¬ p.IsIdentity → ∀ o ∈ phrases, Encloses p.target o.source := by
  intro p hp hps o ho
  by_cases hos : o.IsIdentity
  · exact encloses_of_not_overhangs (hfit p hp hps o ho hos)
  · exact (h.inert hp hps ho hos).encloses

end Phrase

namespace PhraseTable

theorem identitiesFit_listing (table : ShippedTable) : Phrase.IdentitiesFit table.listing := by
  cases table <;>
    simp only [ShippedTable.listing, ShippedTable.pairs, ShippedTable.headingPairs,
      ShippedTable.glossaryPairs, List.map_cons, List.map_nil, String.reduceToList] <;>
    decide +kernel

/-- The shipped tables need no validation: they would pass it. -/
theorem ofList_listing (table : ShippedTable) : ofList table.listing = .ok (shipped table) :=
  ofList_eq_ok_iff.2 ⟨consistent_listing table, rfl⟩

theorem identitiesFit_shipped (table : ShippedTable) :
    Phrase.IdentitiesFit (shipped table).phrases :=
  (identitiesFit_listing table).perm (perm_sorted _).symm

/-- What a second pass makes of the text of the first is that text, and it substitutes nothing. -/
def SettlesAtOnce (table : PhraseTable) (text : Text) : Prop :=
  let once := (table.translate text).text
  (table.translate once).text = once ∧ (table.translate once).substitutions = 0

theorem settlesAtOnce_of_identitiesFit {phrases : List (Phrase Char)} {table : PhraseTable}
    (h : ofList phrases = .ok table) (hfit : Phrase.IdentitiesFit table.phrases) (text : Text) :
    table.SettlesAtOnce text := by
  have hcons := consistent_of_ofList h
  have hzero : (table.translate (table.translate text).text).substitutions = 0 :=
    hcons.substitutions_eq_zero_of_encloses (hcons.encloses hfit)
  exact ⟨translate_text_of_substitutions_eq_zero hzero, hzero⟩

/-- **Identities that fit are harmless.** If no identity of a validated table overhangs a target, a
second pass over any text changes nothing. The shipped tables are what validation makes of their
listings, their identities fit, and so a second pass of either changes nothing. -/
theorem second_pass_of_identitiesFit :
    (∀ (phrases : List (Phrase Char)) (table : PhraseTable), ofList phrases = .ok table →
      Phrase.IdentitiesFit table.phrases → ∀ text, table.SettlesAtOnce text) ∧
    ∀ table : ShippedTable, ofList table.listing = .ok (shipped table) ∧
      Phrase.IdentitiesFit (shipped table).phrases ∧
        ∀ text, (shipped table).SettlesAtOnce text := by
  constructor
  · intro phrases table h hfit text
    exact settlesAtOnce_of_identitiesFit h hfit text
  · intro table
    refine ⟨ofList_listing table, identitiesFit_shipped table, fun text => ?_⟩
    exact settlesAtOnce_of_identitiesFit (ofList_listing table) (identitiesFit_shipped table) text

/-- Three identities, two of which can overlap. The first is the target of a phrase, and stands
inside another target. -/
def fitting : List (Phrase Char) :=
  [⟨['b', 'c'], ['b', 'c']⟩, ⟨['d', 'e'], ['d', 'e']⟩, ⟨['e', 'f'], ['e', 'f']⟩, ⟨['f'], ['g']⟩,
    ⟨['x'], ['b', 'c']⟩, ⟨['y'], ['b', 'c', 'g']⟩]

/-- The table of these phrases, which are in match order as they stand. -/
def fittingTable : PhraseTable :=
  ⟨fitting⟩

-- the second pass finds `bc` where the first has put it, and `ef` where the first has found it
example : (fittingTable.translate ['x', 'y', 'e', 'f', 'f']).text =
    ['b', 'c', 'b', 'c', 'g', 'e', 'f', 'g'] := by
  decide +kernel

theorem ofList_fitting : ofList fitting = .ok fittingTable :=
  ofList_eq_ok_of_pairwise (by decide +kernel) (by decide +kernel)

theorem identitiesFit_fitting : Phrase.IdentitiesFit fittingTable.phrases := by
  decide +kernel

/-- The identities of this table fit, although the targets spell one of them. -/
theorem second_pass_of_fitting :
    ofList fitting = .ok fittingTable ∧ Phrase.IdentitiesFit fittingTable.phrases ∧
      fittingTable.SettlesAtOnce ['x', 'y', 'e', 'f', 'f'] :=
  ⟨ofList_fitting, identitiesFit_fitting,
    second_pass_of_identitiesFit.1 _ _ ofList_fitting identitiesFit_fitting _⟩

end PhraseTable

end Phrasebook
