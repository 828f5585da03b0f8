import Phrasebook.Phrase.Overlap
import Phrasebook.Text.Quoted
/-!
# Phrase tables

A phrase table is a validated list of phrases in match order. Validation is what makes a pass over
a text safe to repeat: no target may contain a source that would be replaced, or be able to form
one together with the text around it. Identities are exempt, on both sides.

## Main definitions

* `PhraseTable`: the phrases in match order.
* `TableError`: the four reasons to refuse a list of phrases, with `TableError.message`.
* `PhraseTable.ofList`: validate a list and sort it.
* `PhraseTable.sorted`: sort a list that is known to be valid.
* `PhraseTable.override`: put a list of phrases over a table.
* `PhraseTable.find?`: the target of a source.

## Implementation notes

The order of the given list decides which fault is reported, and nothing else: first the earliest
phrase with an empty or a repeated source, then the earliest phrase whose target is at fault, blamed
on the earliest source that it contains or, failing that, straddles.
-/

namespace Phrasebook

/-- Why a list of phrases is no table. -/
inductive TableError where
  /-- A source occurs twice. -/
  | duplicatePhrase (source : Text)
  /-- A source is empty; `target` is the target that it came with. -/
  | emptyPhrase (target : Text)
  /-- The target contains a source, so that a second pass would replace it. -/
  | conflictingTarget (source target contained : Text)
  /-- The target can form a source together with the text around it. -/
  | overlappingTarget (source target overlapping : Text)
  deriving DecidableEq, Repr

/-- The sentence that reports the fault. -/
def TableError.message : TableError → Text
  | .duplicatePhrase source => "duplicate source phrase ".toList ++ quoted source
  | .emptyPhrase target => "empty source phrase (target ".toList ++ quoted target ++ [')']
  | .conflictingTarget source target contained =>
    "target ".toList ++ quoted target ++ " of ".toList ++ quoted source ++
      " contains source phrase ".toList ++ quoted contained
  | .overlappingTarget source target overlapping =>
    "target ".toList ++ quoted target ++ " of ".toList ++ quoted source ++
      " can form source phrase ".toList ++ quoted overlapping ++ " with adjacent text".toList

namespace Phrase

/-- The first fault of a source by itself: it is empty, or one of the sources `seen` before it in
the list. -/
def sourceFault? (seen : List Text) : List (Phrase Char) → Option TableError
  | [] => none
  | p :: rest =>
    if p.source = [] then some (.emptyPhrase p.target)
    else if p.source ∈ seen then some (.duplicatePhrase p.source)
    else sourceFault? (p.source :: seen) rest

/-- The fault of the target of `p` among the substituting phrases `others`. -/
def targetFault? (others : List (Phrase Char)) (p : Phrase Char) : Option TableError :=
  match others.find? fun o => occursIn o.source p.target with
  | some o => some (.conflictingTarget p.source p.target o.source)
  | none =>
    (others.find? fun o => straddles p.target o.source).map fun o =>
      .overlappingTarget p.source p.target o.source

/-- The phrases of a list that are no identities. -/
def substituting (phrases : List (Phrase Char)) : List (Phrase Char) :=
  phrases.filter fun p => !decide p.IsIdentity

/-- The first fault of a list of phrases. -/
def fault? (phrases : List (Phrase Char)) : Option TableError :=
  sourceFault? [] phrases <|>
    (substituting phrases).findSome? (targetFault? (substituting phrases))

end Phrase

/-- A phrase table: phrases in match order. -/
structure PhraseTable where
  /-- The phrases, in match order. -/
  phrases : List (Phrase Char)
  deriving DecidableEq, Repr

namespace PhraseTable

/-- The table of a list of phrases that needs no validation. -/
def sorted (phrases : List (Phrase Char)) : PhraseTable :=
  ⟨phrases.mergeSort Phrase.precedes⟩

/-- The table of a list of phrases, or the first fault of the list. -/
def ofList (phrases : List (Phrase Char)) : Except TableError PhraseTable :=
  match Phrase.fault? phrases with
  | some fault => .error fault
  | none => .ok (sorted phrases)

/-- The target that the table gives to a source. -/
def find? (table : PhraseTable) (source : Text) : Option Text :=
  (table.phrases.find? fun p => p.source = source).map Phrase.target

/-- The number of phrases. -/
def size (table : PhraseTable) : Nat :=
  table.phrases.length

/-- The table without the phrases that `top` has a target for. -/
def uncovered (table top : PhraseTable) : List (Phrase Char) :=
  table.phrases.filter fun p => (top.find? p.source).isNone

/-- The table with the phrases of `overrides` put over it: they replace the phrases that share a
source with them and join the others. The overrides have to be a table by themselves, and so has
the result. -/
def override (table : PhraseTable) (overrides : List (Phrase Char)) :
    Except TableError PhraseTable := do
  let top ← ofList overrides
  ofList (table.uncovered top ++ top.phrases)

end PhraseTable

end Phrasebook
