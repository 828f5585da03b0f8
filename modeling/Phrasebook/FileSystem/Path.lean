import Phrasebook.Text.Quoted
/-!
# Paths and the names in them

A path is a text with slashes. Between the slashes stand the names of entries of directories, or the
two names `.` and `..` that every directory has.

## Main definitions

* `FileName`: a name that an entry of a directory can have.
* `Step`: what a part of a path says.
* `Path.steps`: the steps of a path.
* `Path.isTooLong`: the limit on the length of a path.
* `Path.join`: a path continued by a name.

## Implementation notes

An empty part of a path is a step of its own, `Step.slash`. It leads nowhere, but a path that ends
in a slash asks for a directory, and the step after the last name is what carries this demand.

Paths and names are texts. Names whose octets are no UTF-8 are left out, and with them the reading
that replaces such octets where a name is looked at for its extension: on a text it changes nothing.
-/

namespace Phrasebook

/-- The greatest number of octets in a name. -/
def FileName.maxSize : Nat :=
  255

/-- The text can be the name of an entry. -/
def FileName.Valid (text : Text) : Prop :=
  text ≠ [] ∧ '/' ∉ text ∧ '\x00' ∉ text ∧ text ≠ ['.'] ∧ text ≠ ['.', '.'] ∧
    Utf8.size text ≤ FileName.maxSize

instance (text : Text) : Decidable (FileName.Valid text) :=
  inferInstanceAs (Decidable (_ ∧ _))

/-- The name of an entry of a directory. -/
structure FileName where
  /-- The characters of the name. -/
  text : Text
  /-- They are not too many, and do not read as anything else in a path. -/
  valid : FileName.Valid text
  deriving DecidableEq

/-- What one part of a path says. -/
inductive Step where
  /-- An empty part: stay, in a directory. -/
  | slash
  /-- The part `.`: stay, in a directory. -/
  | here
  /-- The part `..`: to the parent directory. -/
  | up
  /-- To the entry with this name. -/
  | name (name : FileName)
  /-- To an entry with a longer name than any entry can have. -/
  | tooLong
  deriving DecidableEq

/-- The step that a part of a path asks for. -/
def Step.ofPart (part : Text) : Step :=
  if part = [] then .slash
  else if part = ['.', '.'] then .up
  else if valid : FileName.Valid part then .name ⟨part, valid⟩
  else if FileName.maxSize < Utf8.size part then .tooLong
  else .here

namespace Path

/-- The greatest number of octets in a path that is followed. -/
def maxSize : Nat :=
  4095

/-- The path is too long to be followed. -/
def isTooLong (path : Text) : Bool :=
  maxSize < Utf8.size path

/-- The parts of a path between its slashes. -/
def parts : Text → List Text
  | [] => [[]]
  | c :: rest =>
    if c = '/' then [] :: parts rest
    else
      match parts rest with
      | part :: others => (c :: part) :: others
      | [] => [[c]]

/-- The steps of a path. -/
def steps (path : Text) : List Step :=
  (parts path).map Step.ofPart

/-- The path starts from the root of the file system. -/
def isAbsolute (path : Text) : Bool :=
  path.head? = some '/'

/-- The path continued by a name. -/
def join (path name : Text) : Text :=
  if path = [] ∨ path.getLast? = some '/' then path ++ name else path ++ '/' :: name

/-- The path continued by several names, one after the other. -/
def joinAll (path : Text) (names : List FileName) : Text :=
  names.foldl (fun path name => join path name.text) path

end Path

namespace FileName

/-- The order of names: by their octets. -/
def octets (name : FileName) : List UInt8 :=
  Utf8.encode name.text

/-- What stands after the last dot of the name, if something stands before that dot. -/
def extension? (name : FileName) : Option Text :=
  let back := name.text.reverse
  match back.dropWhile (· ≠ '.') with
  | _ :: _ :: _ => some (back.takeWhile (· ≠ '.')).reverse
  | _ => none

end FileName

end Phrasebook
