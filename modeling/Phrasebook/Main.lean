import Phrasebook.CommandLine.Run
/-!
# The program

The outer layer of the program. It gathers what a run is a function of, lets `runProgram` decide
everything, and carries out what has been decided: print, and write the files that have changed.

## Main definitions

* `main`: the program.

## Implementation notes

The file system that the run sees holds the files that the run can ask for: the configuration, and
for `apply` the root. A root that is a directory cannot be listed by opening files. The paths of the
files under it are then taken from the standard input, one a line.
-/

namespace Phrasebook

/-- The octets of a file, if there is a file that can be read. -/
def readOctets? (path : String) : IO (Option (List UInt8)) := do
  try
    return some (← IO.FS.readBinFile path).toList
  catch _ =>
    return none

/-- The octets of the standard input. -/
def readInput : IO (List UInt8) := do
  return (← readOctets? "/dev/stdin").getD []

/-- The environment of the program. -/
def readEnvironment : IO Environment := do
  let look (name : String) : IO (Option Text) := do
    return (← IO.getEnv name).map String.toList
  return {
    table := ← look (String.ofList Environment.tableVariable)
    configHome := ← look "XDG_CONFIG_HOME"
    home := ← look "HOME"
    logLevel := ← look "RUST_LOG" }

/-- The file system without files, seen from a directory. -/
def emptySeenFrom (directory : Text) : FileSystem :=
  let names := (Path.steps directory).filterMap fun
    | .name name => some name
    | _ => none
  FileSystem.place { entries := [], workingDirectory := names.reverse } directory .directory

/-- The file system with the file at a path, if there is one. -/
def withFile (files : FileSystem) (path : Text) : IO FileSystem := do
  match ← readOctets? (String.ofList path) with
  | some octets => return files.place path (.file octets)
  | none => return files

/-- The lines of a text, without their line breaks. -/
def linesOf (text : Text) : List Text :=
  ((String.ofList text).splitOn "\n").map String.toList

/-- The files that a command works on, and the standard input that it reads. -/
def gather (files : FileSystem) : Command → IO (FileSystem × List UInt8)
  | .apply root _ _ => do
    let files ← withFile files root
    if files.isFile root then return (files, [])
    let names := linesOf ((Utf8.decode? (← readInput)).getD [])
    return (← names.foldlM withFile files, [])
  | .text _ => return (files, ← readInput)
  | .list _ | .check => return (files, [])

/-- The absolute path of a location. -/
def absolutePath (location : Location) : String :=
  String.ofList (Path.joinAll ['/'] location.reverse)

/-- Write the files that differ from what they were. -/
def writeChanges (before after : FileSystem) : IO Unit := do
  for (location, octets) in after.regularFiles do
    unless before.get? location = some (.file octets) do
      IO.FS.writeBinFile (absolutePath location) ⟨octets.toArray⟩

/-- The records of a run as lines. -/
def recordLines (records : List Record) : Text :=
  unlines (records.map fun record => record.level.name ++ ' ' :: record.text)

end Phrasebook

open Phrasebook in
/-- The program: its exit code is that of the run. -/
def main (arguments : List String) : IO UInt32 := do
  let arguments := arguments.map String.toList
  let environment ← readEnvironment
  let directory := (← IO.currentDir).toString.toList
  let (files, input) ← match Invocation.parse arguments with
    | none => pure (emptySeenFrom directory, [])
    | some invocation => do
      let files ← withFile (emptySeenFrom directory)
        (invocation.config.getD environment.configPath)
      gather files invocation.command
  let transcript := runProgram environment files input arguments
  writeChanges files transcript.files
  IO.eprint (String.ofList (recordLines transcript.records ++ transcript.errors))
  let output ← IO.getStdout
  output.write ⟨(Utf8.encode transcript.output).toArray⟩
  output.flush
  return UInt32.ofNat transcript.code
