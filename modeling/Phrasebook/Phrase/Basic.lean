import Phrasebook.Text.Utf8
/-!
# Phrases and the order in which they are matched

A phrase pairs a source with the target that replaces it. A phrase whose target is its source is an
*identity*: it changes nothing, but keeps the places where it occurs from being matched by shorter
phrases.

## Main definitions

* `Phrase`: a source and a target over any alphabet.
* `Phrase.IsIdentity`: the target is the source.
* `Phrase.precedes`: the match order, longer sources first, equally long ones by their octets.

## Implementation notes

Phrases are over an arbitrary alphabet `α`, since cutting a text at the places of a phrase needs no
more than equality of symbols. Tables of phrases are over characters; the match order measures and
compares them by their octets.
-/

namespace Phrasebook

/-- A source and the target that replaces it. -/
structure Phrase (α : Type) where
  /-- What is looked for. -/
  source : List α
  /-- What is put in its place. -/
  target : List α
  deriving DecidableEq, Repr

namespace Phrase

variable {α : Type}

/-- The phrase replaces its source by itself. -/
def IsIdentity (p : Phrase α) : Prop :=
  p.source = p.target

instance [DecidableEq α] (p : Phrase α) : Decidable p.IsIdentity :=
  inferInstanceAs (Decidable (p.source = p.target))

/-- The phrase with its source and its target taken to another alphabet. -/
def map {β : Type} (f : List α → List β) (p : Phrase α) : Phrase β :=
  ⟨f p.source, f p.target⟩

/-- `p` is matched no later than `q`: its source has more octets, or as many and its octets come no
later in lexicographic order. -/
def precedes (p q : Phrase Char) : Bool :=
  let a := Utf8.encode p.source
  let b := Utf8.encode q.source
  b.length < a.length || (a.length == b.length && decide (a ≤ b))

end Phrase

end Phrasebook
