import Phrasebook.FileSystem.Basic
/-!
# Where a path leads

A path is followed step by step from the working directory or the root. A symbolic link on the way
stands for its own path; links are followed a limited number of times, which ends every loop of
links.

## Main definitions

* `IoError`: why a file could not be reached, read or written, with `IoError.message`.
* `Place`: an entry at its location, or a location without one in a directory.
* `Ending`: what the last name of a path asks for.
* `FileSystem.resolve`: where a path leads.

## Implementation notes

What is wrong with a path as a text comes first: a NUL character, no character at all, or too many
octets. Everything else is found in the order of the steps. The path that a link stands for may make
the whole way longer than a path can be.

`FileSystem.walkSteps` recurs on the steps and hands a link over to a function that knows how many
links may still be followed; `FileSystem.resolveFrom` recurs on that number.
-/

namespace Phrasebook

/-- Why a file could not be reached, read or written. -/
inductive IoError where
  /-- A name on the way, or the last one, has no entry. -/
  | notFound
  /-- A name on the way is not that of a directory. -/
  | notADirectory
  /-- A directory stands where a file was to be read or written. -/
  | isADirectory
  /-- A name, or a path as a whole, has too many octets. -/
  | nameTooLong
  /-- Too many links had to be followed. -/
  | tooManyLinks
  /-- The path has a NUL character. -/
  | nulInPath
  /-- The octets of the file are no text. -/
  | notUtf8
  /-- The file cannot be written. -/
  | permissionDenied
  deriving DecidableEq, Repr

/-- The sentence that reports the cause. -/
def IoError.message : IoError → Text
  | notFound => "No such file or directory (os error 2)".toList
  | notADirectory => "Not a directory (os error 20)".toList
  | isADirectory => "Is a directory (os error 21)".toList
  | nameTooLong => "File name too long (os error 36)".toList
  | tooManyLinks => "Too many levels of symbolic links (os error 40)".toList
  | nulInPath => "file name contained an unexpected NUL byte".toList
  | notUtf8 => "stream did not contain valid UTF-8".toList
  | permissionDenied => "Permission denied (os error 13)".toList

/-- Where a path can lead. -/
inductive Place where
  /-- To an entry. -/
  | present (location : Location) (entry : Entry)
  /-- To a name that an existing directory does not have. -/
  | vacant (location : Location)
  deriving DecidableEq

/-- What the last name of a path asks for. -/
inductive Ending where
  /-- The entry, or what it stands for if it is a link. -/
  | follow
  /-- The entry itself, be it a link. -/
  | keep
  /-- As `follow`, in order to make a file: slashes after the name are refused. -/
  | create
  deriving DecidableEq

/-- How many links are followed on one path. -/
def maxLinks : Nat :=
  40

namespace FileSystem

/-- The location where a path starts. -/
def startOf (directory : Location) (path : Text) : Location :=
  if Path.isAbsolute path then [] else directory

/-- Nothing but slashes follow the last name of a path by which a file is to be made. -/
def refusesSlashes (ending : Ending) (rest : List Step) : Bool :=
  ending = .create && rest ≠ [] && rest.all (· = .slash)

/-- Follow steps from a directory. A link is handed to `follow`, with the directory that it stands
in and the steps that remain after it. -/
def walkSteps (files : FileSystem) (ending : Ending)
    (follow : Location → Text → List Step → Except IoError Place) (directory : Location) :
    List Step → Except IoError Place
  | [] => .ok (.present directory .directory)
  | .slash :: rest => walkSteps files ending follow directory rest
  | .here :: rest => walkSteps files ending follow directory rest
  | .up :: rest => walkSteps files ending follow directory.tail rest
  | .tooLong :: rest =>
    .error (if refusesSlashes ending rest then .isADirectory else .nameTooLong)
  | .name name :: rest =>
    let location := name :: directory
    if refusesSlashes ending rest then .error .isADirectory
    else
      match files.get? location with
      | none => if rest = [] then .ok (.vacant location) else .error .notFound
      | some .directory => walkSteps files ending follow location rest
      | some (.file octets) =>
        if rest = [] then .ok (.present location (.file octets)) else .error .notADirectory
      | some (.link target) =>
        if rest = [] ∧ ending = .keep then .ok (.present location (.link target))
        else follow directory target rest

/-- Follow steps from a directory, and at most `links` links on the way. -/
def resolveFrom (files : FileSystem) (ending : Ending) :
    (links : Nat) → Location → List Step → Except IoError Place
  | 0 => walkSteps files ending fun _ _ _ => .error .tooManyLinks
  | links + 1 =>
    walkSteps files ending fun directory target rest =>
      resolveFrom files ending links (startOf directory target) (Path.steps target ++ rest)

/-- Where a path leads. -/
def resolve (files : FileSystem) (ending : Ending) (path : Text) : Except IoError Place :=
  if '\x00' ∈ path then .error .nulInPath
  else if path = [] then .error .notFound
  else if Path.isTooLong path then .error .nameTooLong
  else
    resolveFrom files ending maxLinks (startOf files.workingDirectory path) (Path.steps path)

end FileSystem

end Phrasebook
