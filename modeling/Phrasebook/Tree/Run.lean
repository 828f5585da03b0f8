import Phrasebook.Config.Basic
import Phrasebook.Tree.Discovery
import Phrasebook.Tree.Work
/-!
# Translating all documents under a root

The documents are found first, and then worked on side by side. A schedule says whose step comes
next; what has been reported at the end does not follow the schedule, but the order of the
documents.

## Main definitions

* `Outcome`: a document and what its work has come to.
* `Work`: the state of the work on several documents.
* `Work.step`, `Work.run`: one step of one document, and the steps of a schedule.
* `rounds`: the schedule in which all documents are read before the first one is written.
* `collect`, `inOrder`, `outcomes`: results put to their documents, and into the order of these.
* `translateTree`: translate the documents under a root.

## Implementation notes

Documents have numbers, which are their positions in the list of discovered documents. A result is
stored with the number of its document when the work on it ends, so that the list of results is in
the order in which the work has ended. `collect` looks up each number among those that have not had
their result yet, and `inOrder` sorts what it has found.

The work on a document always comes to an end of its own, with a report or an error of the file
system. That it breaks down, which would be reported as an error of another kind, is left out.
-/

namespace Phrasebook

/-- Which documents a run is about, and whether it may write. -/
structure TreeOptions where
  /-- The extensions of the names of documents. -/
  extensions : List Text := defaultExtensions
  /-- Nothing is written. -/
  dryRun : Bool := false
  deriving DecidableEq, Repr, Inhabited

/-- Why the work on a document has failed: the path of the document, and the cause. -/
structure DocumentError where
  /-- The path of the document. -/
  path : Text
  /-- What went wrong there. -/
  cause : IoError
  deriving DecidableEq, Repr

/-- The sentence that reports the failure. -/
def DocumentError.message (error : DocumentError) : Text :=
  quoted error.path ++ ": ".toList ++ error.cause.message

/-- What the work on one document has come to. -/
structure Outcome where
  /-- The names that lead from the root to the document. -/
  trail : Trail
  /-- The path of the document. -/
  path : Text
  /-- The report of the work, or why it has failed. -/
  result : Except IoError Report

/-- The outcome of the document that a trail leads to from a root. -/
def Outcome.of (root : Text) (trail : Trail) (result : Except IoError Report) : Outcome :=
  ⟨trail, Path.joinAll root trail, result⟩

/-- The record that is made of an outcome. -/
def Outcome.record (outcome : Outcome) : Record :=
  match outcome.result with
  | .ok report =>
    ⟨.debug, quoted outcome.path ++ ": ".toList ++
      (s!"substitutions={report.substitutions} found={report.phrasesFound} " ++
        s!"written={report.written}").toList⟩
  | .error cause =>
    ⟨.warn, quoted outcome.path ++ ": ".toList ++
      DocumentError.message ⟨outcome.path, cause⟩⟩

/-- The state of the work on several documents. -/
structure Work where
  /-- The file system as it is by now. -/
  files : FileSystem
  /-- How far the work on each document has got. -/
  stages : List Stage
  /-- The results so far, each with the number of its document, in the order in which the work has
  ended. -/
  results : List (Nat × Except IoError Report)

namespace Work

/-- The work before its first step. -/
def begin (files : FileSystem) (documents : Nat) : Work :=
  ⟨files, List.replicate documents .unread, []⟩

/-- The next step of the document with a number. A document whose work is over has none. -/
def step (table : PhraseTable) (dryRun : Bool) (paths : List Text) (work : Work)
    (number : Nat) : Work :=
  match paths[number]?, work.stages[number]? with
  | some path, some stage =>
    match stage with
    | .finished _ => work
    | stage =>
      let (files, stage) := stage.advance table dryRun path work.files
      ⟨files, work.stages.set number stage,
        match stage with
        | .finished result => work.results ++ [(number, result)]
        | _ => work.results⟩
  | _, _ => work

/-- The steps of a schedule, one after the other. -/
def run (table : PhraseTable) (dryRun : Bool) (paths : List Text) (schedule : List Nat)
    (work : Work) : Work :=
  schedule.foldl (step table dryRun paths) work

end Work

/-- The schedule in which every document takes its first step, and then every document its
second. -/
def rounds (documents : Nat) : List Nat :=
  List.range documents ++ List.range documents

/-- Put each result to what it is the result of. `waiting` is what still waits for a result, by its
number. A number is taken out when its result has come, and a result whose number is not there is
passed over. -/
def collect {ι α β : Type} [DecidableEq ι] (waiting : List (ι × α)) : List (ι × β) → List (α × β)
  | [] => []
  | (number, result) :: rest =>
    match waiting.find? fun entry => entry.1 = number with
    | none => collect waiting rest
    | some entry =>
      (entry.2, result) :: collect (waiting.filter fun other => other.1 ≠ number) rest

/-- The outcomes of documents whose results came in any order, in the order of the documents. -/
def inOrder (root : Text) (results : List (Trail × Except IoError Report)) : List Outcome :=
  (results.map fun (trail, result) => Outcome.of root trail result).mergeSort
    fun a b => Trail.precedes a.trail b.trail

/-- The outcomes of the results of numbered documents. -/
def outcomes (root : Text) (trails : List Trail) (results : List (Nat × Except IoError Report)) :
    List Outcome :=
  inOrder root (collect (trails.zipIdx.map Prod.swap) results)

/-- Translate the documents under a root by a schedule, which may depend on their number. -/
def translateTreeBy (schedule : Nat → List Nat) (files : FileSystem) (table : PhraseTable)
    (root : Text) (options : TreeOptions) : Except WalkError (List Outcome × FileSystem) := do
  let trails ← discover files root options.extensions
  let paths := trails.map (Path.joinAll root)
  let work :=
    (Work.begin files trails.length).run table options.dryRun paths (schedule trails.length)
  return (outcomes root trails work.results, work.files)

/-- Translate the documents under a root. -/
def translateTree (files : FileSystem) (table : PhraseTable) (root : Text)
    (options : TreeOptions) : Except WalkError (List Outcome × FileSystem) :=
  translateTreeBy rounds files table root options

end Phrasebook
