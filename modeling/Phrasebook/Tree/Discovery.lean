import Phrasebook.FileSystem.Access
/-!
# Finding the documents under a root

The documents under a directory are the regular files whose names have a wanted extension, at any
depth, links followed. A root that is a file is its own only document, whatever its name.

## Main definitions

* `Trail`: the names that lead from a root to a document, and their order.
* `WalkError`: why the documents could not be found, with `WalkError.message`.
* `walk`: the trails of all regular files in a directory.
* `discover`: the trails of the documents under a root, in order.

## Implementation notes

A link to a directory is entered unless the directory is one of those that the walk is in at the
moment, which would be a loop. Directories entered through links are therefore distinct along any
one way down, and there are at most as many as there are entries: `walk` recurs on that number, and
`descend`, which goes down without links, on the depth that is left.
-/

namespace Phrasebook

/-- The names that lead from a root to a file, the outermost first. -/
abbrev Trail := List FileName

/-- Trails are in the order of their names, name by name, and those by their octets. -/
def Trail.precedes (a b : Trail) : Bool :=
  decide (a.map FileName.octets ≤ b.map FileName.octets)

/-- Why the documents under a root could not be found. -/
inductive WalkError where
  /-- An entry could not be looked at. -/
  | io (path : Text) (cause : IoError)
  /-- A link leads to a directory that the walk is in. -/
  | loop (link ancestor : Text)
  deriving DecidableEq, Repr

/-- The sentence that reports the cause. -/
def WalkError.message : WalkError → Text
  | .io path cause =>
    "directory walk failed: IO error for operation on ".toList ++ path ++ ": ".toList ++
      cause.message
  | .loop link ancestor =>
    "directory walk failed: File system loop found: ".toList ++ link ++
      " points to an ancestor ".toList ++ ancestor

/-- A point that a walk has come to. -/
structure Visit where
  /-- The path that the walk has taken. -/
  path : Text
  /-- The location of the entry, links followed. -/
  location : Location
  /-- The names on the way from the root. -/
  trail : Trail

namespace Visit

/-- The visit of an entry of a directory. -/
def child (visit : Visit) (name : FileName) : Visit :=
  ⟨Path.join visit.path name.text, name :: visit.location, visit.trail ++ [name]⟩

end Visit

/-- The trails of the regular files in a directory, down to a depth. `stack` are the directories
that the walk is in, the innermost first; a link is handed to `enter`. A directory is opened by the
path that the walk has taken, which can get too long; a file is not opened. -/
def descend (files : FileSystem) (enter : List Visit → Visit → Except WalkError (List Trail)) :
    (depth : Nat) → (stack : List Visit) → Visit → Except WalkError (List Trail)
  | 0, _, _ => .ok []
  | depth + 1, stack, directory =>
    if Path.isTooLong directory.path then .error (.io directory.path .nameTooLong)
    else do
      let stack := directory :: stack
      let found ← (files.children directory.location).mapM fun (name, entry) =>
        let child := directory.child name
        match entry with
        | .file _ => .ok [child.trail]
        | .directory => descend files enter depth stack child
        | .link _ => enter stack child
      return found.flatten

/-- The trails of the regular files in a directory, through at most `links` links to directories
one after the other. -/
def walk (files : FileSystem) :
    (links : Nat) → (stack : List Visit) → Visit → Except WalkError (List Trail)
  | 0, _, _ => .ok []
  | links + 1, stack, directory =>
    descend files (fun stack child =>
      match files.find .follow child.path with
      | .error cause => .error (.io child.path cause)
      | .ok (location, .directory) =>
        match stack.find? fun ancestor => ancestor.location = location with
        | some ancestor => .error (.loop child.path ancestor.path)
        | none => walk files links stack { child with location }
      | .ok _ => .ok [child.trail])
      (files.depth + 1) stack directory

/-- The trails of the regular files under a root that is no file itself. -/
def walkRoot (files : FileSystem) (root : Text) : Except WalkError (List Trail) := do
  let links := files.entries.length + 2
  match files.find .keep root with
  | .error cause => .error (.io root cause)
  | .ok (location, .directory) => walk files links [] ⟨root, location, []⟩
  | .ok (_, .file _) => .ok []
  | .ok (_, .link _) =>
    match files.find .follow root with
    | .error cause => .error (.io root cause)
    | .ok (location, .directory) => walk files links [] ⟨root, location, []⟩
    | .ok _ => .ok []

/-- The two texts are the same up to the case of ASCII letters. -/
def sameUpToCase (a b : Text) : Bool :=
  a.map Char.toLower = b.map Char.toLower

/-- The name has one of the extensions. Dots in front of a wanted extension do not count. -/
def FileName.hasExtension (name : FileName) (extensions : List Text) : Bool :=
  match name.extension? with
  | none => false
  | some extension =>
    extensions.any fun wanted => sameUpToCase (wanted.dropWhile (· = '.')) extension

/-- The trail leads to a file whose name has one of the extensions. -/
def Trail.isWanted (extensions : List Text) (trail : Trail) : Bool :=
  match trail.getLast? with
  | some name => name.hasExtension extensions
  | none => false

/-- The trails of the documents under a root, in order. A root that is a file is reached by the
trail without names. -/
def discover (files : FileSystem) (root : Text) (extensions : List Text) :
    Except WalkError (List Trail) :=
  if files.isFile root then .ok [[]]
  else do
    let trails ← walkRoot files root
    return (trails.filter (Trail.isWanted extensions)).mergeSort Trail.precedes

end Phrasebook
