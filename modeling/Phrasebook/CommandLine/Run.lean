import Phrasebook.CommandLine.Arguments
import Phrasebook.Config.Load
import Phrasebook.Tree.Run
/-!
# Runs of the program

A run is a function of its arguments, its environment, the file system and the standard input. It
ends with an exit code, has printed two streams, has made records, and leaves a file system behind.

## Main definitions

* `Transcript`: what a run leaves behind.
* `activeTable`: the phrase table that a run works with.
* `perform`: carry out a command with a configuration.
* `runProgram`: a whole run.

## Implementation notes

All commands share one order: arguments, configuration, phrase table, and then the work of the
command. Each stage can end the run, and only the last one of `apply` changes files.

What is printed is always taken, and the standard input is there as a whole. That the standard
output refuses a text, which would end `performText` with a complaint and the code 1, is left out.
So is the wording of the usage: `usage` stands for what is printed with the code 2, whatever is
wrong with the arguments.
-/

namespace Phrasebook

/-- What a run leaves behind. -/
structure Transcript where
  /-- The exit code. -/
  code : Nat
  /-- What was printed on the standard output. -/
  output : Text
  /-- What was printed on the standard error stream, records apart. -/
  errors : Text
  /-- The records, in the order in which they were made. -/
  records : List Record
  /-- The file system at the end. -/
  files : FileSystem

namespace Transcript

/-- The end of a run that has printed nothing but a complaint. -/
def failure (files : FileSystem) (records : List Record) (complaint : Text) : Transcript :=
  ⟨1, [], complaint ++ ['\n'], records, files⟩

/-- The end of a run that has printed a text and succeeded. -/
def success (files : FileSystem) (records : List Record) (output : Text) : Transcript :=
  ⟨0, output, [], records, files⟩

end Transcript

/-- Lines of a text, each with its line break. -/
def unlines (lines : List Text) : Text :=
  lines.flatMap fun line => line ++ ['\n']

/-- The configuration with the shipped table that the arguments ask for. -/
def Config.withTable (config : Config) (table : Option ShippedTable) : Config :=
  { config with table := table.getD config.table }

/-- The complaint about a phrase table that is not valid. -/
def invalidTable (error : TableError) : Text :=
  "Invalid phrase table: ".toList ++ error.message

/-- The phrase table that a run works with. -/
def activeTable (config : Config) (table : Option ShippedTable) :
    Except TableError PhraseTable :=
  (config.withTable table).phraseTable

/-- The record of the phrase table that has been loaded. -/
def loaded (config : Config) (table : PhraseTable) : Record :=
  ⟨.info, s!"{table.size} mappings loaded (".toList ++ config.table.title ++ [')']⟩

/-- The line about the outcome of a document: on the standard output or as a complaint. -/
def Outcome.line (phrases : Nat) (outcome : Outcome) : Except Text Text :=
  match outcome.result with
  | .ok report =>
    .ok (outcome.path ++ (s!": {report.substitutions} substitutions " ++
      s!"({report.phrasesFound} of {phrases} phrases found)").toList)
  | .error cause =>
    .error (outcome.path ++ ": ".toList ++ DocumentError.message ⟨outcome.path, cause⟩)

/-- The reports of the documents on which the work has succeeded. -/
def reports (outcomes : List Outcome) : List Report :=
  outcomes.filterMap fun outcome => outcome.result.toOption

/-- The last line about a run over several documents. -/
def closingLine (dryRun : Bool) (outcomes : List Outcome) : Text :=
  let reports := reports outcomes
  let substitutions := reports.foldr (fun report total => report.substitutions + total) 0
  let verb := if dryRun then "would rewrite" else "rewrote"
  let written := reports.countP Report.written
  let failed := outcomes.length - reports.length
  (s!"{outcomes.length} documents, {substitutions} substitutions, " ++
    s!"{verb} {written}, {failed} failed").toList

/-- The transcript of a run over several documents. -/
def summarize (files : FileSystem) (records : List Record) (phrases : Nat) (dryRun : Bool)
    (outcomes : List Outcome) : Transcript :=
  let lines := outcomes.map (Outcome.line phrases)
  let good := lines.filterMap Except.toOption
  let bad := lines.filterMap fun
    | .ok _ => none
    | .error line => some line
  { code := if bad.isEmpty then 0 else 1
    output := unlines (good ++ [closingLine dryRun outcomes])
    errors := unlines bad
    records := records ++ outcomes.map Outcome.record
    files }

/-- Translate the documents under a root. -/
def performApply (files : FileSystem) (records : List Record) (config : Config)
    (table : PhraseTable) (root : Text) (dryRun : Bool) : Transcript :=
  match translateTree files table root ⟨config.extensions, dryRun⟩ with
  | .error error =>
    Transcript.failure files records
      ("Failed to scan ".toList ++ quoted root ++ ": ".toList ++ error.message)
  | .ok (outcomes, files) =>
    let found : Record :=
      ⟨.debug, s!"{outcomes.length} documents under ".toList ++ quoted root⟩
    summarize files (records ++ [found]) table.size dryRun outcomes

/-- Translate the standard input. -/
def performText (files : FileSystem) (records : List Record) (table : PhraseTable)
    (input : List UInt8) : Transcript :=
  match Utf8.decode input with
  | .error malformed =>
    Transcript.failure files records ("Failed to read stdin: ".toList ++ malformed.message)
  | .ok text =>
    let rendition := table.translate text
    let counts : Record :=
      ⟨.debug, (s!"substitutions={rendition.substitutions} found={rendition.phrasesFound} " ++
        s!"of {table.size}").toList⟩
    Transcript.success files (records ++ [counts]) rendition.text

/-- The count of the phrases of a table. -/
def mappings (table : PhraseTable) : Text :=
  s!"{table.size} mappings".toList

/-- Print a phrase table in match order. -/
def performList (files : FileSystem) (records : List Record) (table : PhraseTable) :
    Transcript :=
  Transcript.success files records
    (unlines ((table.phrases.map fun phrase => phrase.source ++ '\t' :: phrase.target) ++
      [mappings table]))

/-- Go on with the phrase table of a configuration, or end the run if it is not valid. -/
def withActiveTable (files : FileSystem) (records : List Record) (config : Config)
    (table : Option ShippedTable) (next : List Record → PhraseTable → Transcript) :
    Transcript :=
  match activeTable config table with
  | .error error => Transcript.failure files records (invalidTable error)
  | .ok active => next (records ++ [loaded (config.withTable table) active]) active

/-- Carry out a command with a configuration. -/
def perform (files : FileSystem) (records : List Record) (config : Config) (input : List UInt8) :
    Command → Transcript
  | .apply root dryRun table =>
    withActiveTable files records config table fun records active =>
      performApply files records config active root dryRun
  | .text table =>
    withActiveTable files records config table fun records active =>
      performText files records active input
  | .list table =>
    withActiveTable files records config table fun records active =>
      performList files records active
  | .check =>
    match config.phraseTable with
    | .error error => Transcript.failure files records (invalidTable error)
    | .ok active => Transcript.success files records (unlines ["ok: ".toList ++ mappings active])

/-- What is printed for arguments that describe no command. -/
def usage : Text :=
  "usage: phrasemap [--config PATH] apply ROOT [--dry-run] [--table TABLE] | text | list | check"
    |>.toList

/-- A run of the program, with all its records. -/
def runWithRecords (environment : Environment) (files : FileSystem) (input : List UInt8)
    (arguments : List Text) : Transcript :=
  match Invocation.parse arguments with
  | none => ⟨2, [], usage ++ ['\n'], [], files⟩
  | some invocation =>
    match Config.load environment files invocation.config with
    | .error error =>
      Transcript.failure files [] ("Config error: ".toList ++ error.message)
    | .ok (config, records) => perform files records config input invocation.command

/-- A run of the program, with the records that its environment asks for. -/
def runProgram (environment : Environment) (files : FileSystem) (input : List UInt8)
    (arguments : List Text) : Transcript :=
  let transcript := runWithRecords environment files input arguments
  { transcript with records := Record.shown environment.logLevel transcript.records }

end Phrasebook
