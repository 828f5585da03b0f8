import Phrasebook.Rendition
import Phrasebook.FileSystem.Access
import Phrasebook.Record
/-!
# The work on one document

Each document is read, translated, and written back if that changes it. Reading and writing are the
two steps of the work that other work can come between.

## Main definitions

* `Report`: what is known of a document when the work on it has succeeded.
* `Stage`: how far the work has got.
* `Stage.advance`: the next step of the work.
-/

namespace Phrasebook

/-- What the work on a document has come to. -/
structure Report where
  /-- How many occurrences have been replaced, those of identities aside. -/
  substitutions : Nat
  /-- How many phrases occur in the document. -/
  phrasesFound : Nat
  /-- The document has been written. -/
  written : Bool
  deriving DecidableEq, Repr

/-- How far the work on a document has got. -/
inductive Stage where
  /-- Nothing has happened. -/
  | unread
  /-- The document has been translated, and is to be written. -/
  | unwritten (rendition : Rendition Char)
  /-- The work is over. -/
  | finished (result : Except IoError Report)

/-- The report of a rendition. -/
def Rendition.report (rendition : Rendition Char) (written : Bool) : Report :=
  ⟨rendition.substitutions, rendition.phrasesFound, written⟩

namespace Stage

/-- What follows once the text of a document is known. A dry run writes nothing. -/
def ofText (table : PhraseTable) (dryRun : Bool) (text : Text) : Stage :=
  let rendition := table.translate text
  if rendition.text ≠ text ∧ !dryRun then .unwritten rendition
  else .finished (.ok (rendition.report false))

/-- The next step of the work on the document at a path: read it, or write it. -/
def advance (table : PhraseTable) (dryRun : Bool) (path : Text) (files : FileSystem) :
    Stage → FileSystem × Stage
  | .unread =>
    match files.readText path with
    | .error cause => (files, .finished (.error cause))
    | .ok text => (files, ofText table dryRun text)
  | .unwritten rendition =>
    match files.write path (Utf8.encode rendition.text) with
    | .error cause => (files, .finished (.error cause))
    | .ok files => (files, .finished (.ok (rendition.report true)))
  | .finished result => (files, .finished result)

end Stage

end Phrasebook
