import Phrasebook.FileSystem.Resolution
/-!
# Reading and writing files by their paths

## Main definitions

* `FileSystem.find`, `FileSystem.isFile`: what a path leads to.
* `FileSystem.read`, `FileSystem.readText`: the octets or the text of a file.
* `FileSystem.write`: give a file new octets, and make it if it is missing.
* `FileSystem.place`, `FileSystem.discard`: set up a file system entry by entry.

## Implementation notes

A file that can be read may still refuse to be written, and then it keeps its octets. To set up a
file system is not to write: `FileSystem.place` and `FileSystem.discard` are never refused.
-/

namespace Phrasebook

namespace FileSystem

/-- The entry that a path leads to, with its location. -/
def find (files : FileSystem) (ending : Ending) (path : Text) :
    Except IoError (Location × Entry) :=
  match files.resolve ending path with
  | .error cause => .error cause
  | .ok (.vacant _) => .error .notFound
  | .ok (.present location entry) => .ok (location, entry)

/-- The path leads to a regular file, through links if need be. -/
def isFile (files : FileSystem) (path : Text) : Bool :=
  match files.find .follow path with
  | .ok (_, .file _) => true
  | _ => false

/-- The octets of the file that a path leads to. -/
def read (files : FileSystem) (path : Text) : Except IoError (List UInt8) :=
  match files.find .follow path with
  | .error cause => .error cause
  | .ok (_, .file octets) => .ok octets
  | .ok _ => .error .isADirectory

/-- The text of the file that a path leads to. -/
def readText (files : FileSystem) (path : Text) : Except IoError Text := do
  match Utf8.decode? (← files.read path) with
  | some text => return text
  | none => .error .notUtf8

/-- The file system after the file that a path leads to has got the given octets. The file is made
if it is missing; its directory is not. Where no file can be written, nothing happens. -/
def write (files : FileSystem) (path : Text) (octets : List UInt8) :
    Except IoError FileSystem :=
  match files.resolve .create path with
  | .error cause => .error cause
  | .ok (.present _ .directory) => .error .isADirectory
  | .ok (.present location _) | .ok (.vacant location) =>
    if location ∈ files.readOnly then .error .permissionDenied
    else .ok (files.set location (.file octets))

/-- The file system with a directory at each of the given paths that led nowhere so far. -/
def withDirectories (files : FileSystem) (paths : List Text) : FileSystem :=
  paths.foldl (fun files path =>
    match files.resolve .follow path with
    | .ok (.vacant location) => files.set location .directory
    | _ => files) files

/-- The paths of the directories that a path goes through, from the outermost on. -/
def ancestors (path : Text) : List Text :=
  (path.zipIdx.filter fun (c, i) => c = '/' && 0 < i).map fun (_, i) => path.take i

/-- The file system with an entry at a path, in directories that are made where they are missing. A
file is put where a link leads; a directory leaves what is there already. -/
def place (files : FileSystem) (path : Text) (entry : Entry) : FileSystem :=
  let files := files.withDirectories (ancestors path)
  match entry with
  | .directory => files.withDirectories [path]
  | .file _ =>
    match files.resolve .follow path with
    | .ok (.present location _) | .ok (.vacant location) => files.set location entry
    | .error _ => files
  | .link _ =>
    match files.resolve .keep path with
    | .ok (.present location _) | .ok (.vacant location) => files.set location entry
    | .error _ => files

/-- The file system without the entry at a path and all below it. -/
def discard (files : FileSystem) (path : Text) : FileSystem :=
  match files.resolve .keep path with
  | .ok (.present location _) => files.erase location
  | _ => files

end FileSystem

end Phrasebook
