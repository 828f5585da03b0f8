import Phrasebook.Proofs.Obstruction
import Phrasebook.Proofs.TableInForce
/-!
# Which runs change files

A run comes to its work on documents last of all. By then its arguments, its configuration and its
phrase table have turned out to be good, and the whole walk for documents is over. So a run that has
ended before has changed nothing, even if the walk had found documents before it met an obstacle;
and only `apply` without `--dry-run` changes anything, in documents that its table changes.

## Main definitions

* `StartsWork`: a run gets as far as to work on documents, and may write them.
* `ChangesNothing`: a run leaves the file system as it is.
* `OnlyRewrites`: nothing changes but documents that a table changes.
* `WriteAccess`: which runs change files, and which files.

## Main results

* `files_runProgram_of_startsWork`, `changesNothing_of_not_startsWork`: what becomes of the files.
* `onlyRewrites_of_translateTreeBy`: what the work on documents changes, whatever the schedule.
* `writeAccess`: which runs change files, and which files.
-/

namespace Phrasebook

open FileSystem

/-- The run is an `apply` without `--dry-run` whose configuration loads, whose phrase table is
valid, and whose documents are found. -/
def StartsWork (environment : Environment) (files : FileSystem) (arguments : List Text)
    (config : Config) (active : PhraseTable) (root : Text) (trails : List Trail) : Prop :=
  ∃ path? asked records,
    Invocation.parse arguments = some ⟨path?, .apply root false asked⟩ ∧
      Config.load environment files path? = .ok (config, records) ∧
      activeTable config asked = .ok active ∧
      discover files root config.extensions = .ok trails

/-- Whatever its standard input, the run leaves the file system as it is. -/
def ChangesNothing (environment : Environment) (files : FileSystem) (arguments : List Text) :
    Prop :=
  ∀ input, (runProgram environment files input arguments).files = files

/-- Nothing changes from `files` to `final` but documents under a root that a table changes. -/
structure OnlyRewrites (files : FileSystem) (table : PhraseTable) (root : Text)
    (trails : List Trail) (final : FileSystem) : Prop where
  /-- No file is made, and none is lost. -/
  isFile_iff : ∀ location, (∃ octets, final.get? location = some (.file octets)) ↔
    ∃ octets, files.get? location = some (.file octets)
  /-- What is different afterwards is the file of a document, with a text that the table changes. It
  is not read-only. -/
  exists_document : ∀ location, final.get? location ≠ files.get? location →
    ∃ trail ∈ trails, files.fileAt? (Path.joinAll root trail) = some location ∧
      location ∉ files.readOnly ∧
      ∃ text, files.get? location = some (.file (Utf8.encode text)) ∧
        (table.translate text).text ≠ text

variable {environment : Environment} {files : FileSystem} {arguments : List Text}
  {config : Config} {records : List Record} {active table : PhraseTable} {root : Text}
  {trails : List Trail}

/-! ### The work on documents -/

theorem onlyRewrites_workOn (files : FileSystem) (table : PhraseTable) (dryRun : Bool) (root : Text)
    (trails : List Trail) (schedule : List Nat) :
    OnlyRewrites files table root trails
      (workOn files table dryRun root trails schedule).files := by
  have hconfined := (onTrack_workOn files table dryRun root trails schedule).toConfined
  refine ⟨hconfined.isFile_iff, fun location hchanged => ?_⟩
  by_contra hnone
  refine hchanged (hconfined.get?_eq location fun path hpath hrewritten hat => hnone ?_)
  obtain ⟨trail, htrail, rfl⟩ := List.mem_map.1 hpath
  obtain ⟨⟨text, htext, hwrite⟩, hwritable⟩ := hrewritten
  exact ⟨trail, htrail, hat, (isReadOnly_iff hat).not.1 hwritable, text,
    get?_of_read hat (readText_eq_ok_iff.1 htext), hwrite.1⟩

/-- **The work on documents only rewrites them**, whatever the schedule, and not even that in a dry
run. -/
theorem onlyRewrites_of_translateTreeBy {options : TreeOptions} {schedule : Nat → List Nat}
    {outcomes : List Outcome} {final : FileSystem}
    (hfound : discover files root options.extensions = .ok trails)
    (hrun : translateTreeBy schedule files table root options = .ok (outcomes, final)) :
    OnlyRewrites files table root trails final ∧ (options.dryRun = true → final = files) := by
  obtain ⟨found, hfound', -, rfl⟩ := exists_workOn_of_translateTreeBy hrun
  cases hfound.symm.trans hfound'
  refine ⟨onlyRewrites_workOn .., fun hdry => ?_⟩
  rw [hdry]
  exact (onTrack_workOn ..).files_eq_of_dryRun

/-! ### The commands -/

/-- What `apply` does to the file system. -/
theorem files_performApply (files : FileSystem) (records : List Record) (config : Config)
    (active : PhraseTable) (root : Text) (dryRun : Bool) :
    (performApply files records config active root dryRun).files =
      match discover files root config.extensions with
      | .error _ => files
      | .ok trails => (workOn files active dryRun root trails (rounds trails.length)).files := by
  rw [performApply, translateTree, translateTreeBy]
  cases discover files root config.extensions <;> rfl

/-- What a command does to the file system. -/
theorem files_perform (files : FileSystem) (records : List Record) (config : Config)
    (input : List UInt8) (command : Command) :
    (perform files records config input command).files =
      match activeTable config command.table? with
      | .error _ => files
      | .ok active => (command.carryOut files input config.extensions active).files := by
  have hperform : (perform files records config input command).unrecorded = _ :=
    unrecorded_perform records input command
  rw [← Transcript.files_unrecorded, hperform]
  cases activeTable config command.table? <;> rfl

/-- Only `apply` without `--dry-run` changes anything, once the documents have been found. -/
theorem Command.files_carryOut_eq (input : List UInt8) (extensions : List Text) (command : Command)
    (h : ∀ root asked, command = .apply root false asked →
      ∃ error, discover files root extensions = .error error) :
    (command.carryOut files input extensions active).files = files := by
  cases command with
  | text asked => exact files_performText ..
  | list asked => rfl
  | check => rfl
  | apply root dryRun asked =>
    rw [Command.carryOut, files_performApply]
    cases hfound : discover files root extensions with
    | error error => rfl
    | ok trails =>
      cases dryRun with
      | true => exact (onTrack_workOn ..).files_eq_of_dryRun
      | false =>
        obtain ⟨error, herror⟩ := h root asked rfl
        cases hfound.symm.trans herror

/-! ### Runs of the program -/

theorem files_runProgram {invocation : Invocation}
    (hparse : Invocation.parse arguments = some invocation)
    (hload : Config.load environment files invocation.config = .ok (config, records))
    (input : List UInt8) :
    (runProgram environment files input arguments).files =
      (perform files records config input invocation.command).files := by
  obtain ⟨shown, hrun⟩ := runProgram_eq hparse hload input
  rw [hrun]

/-- A run that starts work on documents does that work. -/
theorem files_runProgram_of_startsWork
    (h : StartsWork environment files arguments config active root trails) (input : List UInt8) :
    (runProgram environment files input arguments).files =
      (workOn files active false root trails (rounds trails.length)).files := by
  obtain ⟨path?, asked, records, hparse, hload, hactive, hfound⟩ := h
  rw [files_runProgram hparse hload, files_perform]
  simp only [Command.table?, hactive, Command.carryOut, files_performApply, hfound]

/-- **A run that does not start work on documents changes nothing.** -/
theorem changesNothing_of_not_startsWork
    (h : ∀ config active root trails,
      ¬ StartsWork environment files arguments config active root trails) :
    ChangesNothing environment files arguments := by
  intro input
  cases hparse : Invocation.parse arguments with
  | none => rw [runProgram, runWithRecords, hparse]
  | some invocation =>
    obtain ⟨path?, command⟩ := invocation
    cases hload : Config.load environment files path? with
    | error error =>
      rw [runProgram, runWithRecords, hparse]
      simp only [hload]
      rfl
    | ok loaded =>
      obtain ⟨config, records⟩ := loaded
      rw [files_runProgram hparse hload, files_perform]
      cases hactive : activeTable config command.table? with
      | error error => rfl
      | ok active =>
        refine command.files_carryOut_eq input config.extensions ?_
        rintro root asked rfl
        cases hfound : discover files root config.extensions with
        | error error => exact ⟨error, rfl⟩
        | ok trails =>
          exact absurd ⟨path?, asked, records, hparse, hload, hactive, hfound⟩ (h _ _ _ trails)

/-- It can only be a run of `apply` that changes anything, and all that comes before the work has to
succeed. -/
theorem changesNothing_of_parse {path? : Option Text} {command : Command}
    (hparse : Invocation.parse arguments = some ⟨path?, command⟩)
    (h : ∀ root asked config records active trails, command = .apply root false asked →
      Config.load environment files path? = .ok (config, records) →
      activeTable config asked = .ok active →
        discover files root config.extensions ≠ .ok trails) :
    ChangesNothing environment files arguments := by
  refine changesNothing_of_not_startsWork fun config active root trails hstarts => ?_
  obtain ⟨_, asked, records, hparse', hload, hactive, hfound⟩ := hstarts
  cases hparse.symm.trans hparse'
  exact h root asked config records active trails rfl hload hactive hfound

/-- Which runs with the given arguments change files, and which files. -/
structure WriteAccess (environment : Environment) (files : FileSystem) (arguments : List Text) :
    Prop where
  /-- A run that does not start work on documents changes nothing. -/
  of_not_startsWork : (∀ config active root trails,
    ¬ StartsWork environment files arguments config active root trails) →
      ChangesNothing environment files arguments
  /-- Nothing changes in a dry run, or with another command than `apply`. -/
  of_command : ∀ path? command, Invocation.parse arguments = some ⟨path?, command⟩ →
    (∀ root asked, command ≠ .apply root false asked) → ChangesNothing environment files arguments
  /-- Nothing changes if the configuration cannot be read or understood. -/
  of_load_error : ∀ path? command error, Invocation.parse arguments = some ⟨path?, command⟩ →
    Config.load environment files path? = .error error → ChangesNothing environment files arguments
  /-- Nothing changes if the phrase table is not valid. -/
  of_table_error : ∀ path? command config records error,
    Invocation.parse arguments = some ⟨path?, command⟩ →
    Config.load environment files path? = .ok (config, records) →
    activeTable config command.table? = .error error → ChangesNothing environment files arguments
  /-- Nothing changes if the root leads nowhere, or there is an obstacle anywhere below it. -/
  of_obstructedRoot : ∀ path? root dryRun asked,
    Invocation.parse arguments = some ⟨path?, .apply root dryRun asked⟩ →
    ObstructedRoot files root → ChangesNothing environment files arguments
  /-- In the remaining case nothing changes but documents that the table changes. -/
  onlyRewrites : ∀ config active root trails,
    StartsWork environment files arguments config active root trails → ∀ input,
      OnlyRewrites files active root trails (runProgram environment files input arguments).files
  /-- The same would be so with any other schedule, and a dry run would change nothing. -/
  of_schedule : ∀ (table : PhraseTable) root trails options schedule outcomes final,
    discover files root options.extensions = .ok trails →
    translateTreeBy schedule files table root options = .ok (outcomes, final) →
      OnlyRewrites files table root trails final ∧ (options.dryRun = true → final = files)

/-- **Only a run that starts work on documents changes files, and only documents that its table
changes.** -/
theorem writeAccess (environment : Environment) (files : FileSystem) (arguments : List Text) :
    WriteAccess environment files arguments := by
  refine ⟨changesNothing_of_not_startsWork, ?_, ?_, ?_, ?_, ?_, ?_⟩
  · intro path? command hparse hne
    refine changesNothing_of_parse hparse ?_
    rintro root asked _ _ _ _ hcommand - - -
    exact hne root asked hcommand
  · intro path? command error hparse herror
    refine changesNothing_of_parse hparse ?_
    rintro root asked _ _ _ _ rfl hload - -
    cases herror.symm.trans hload
  · intro path? command config records error hparse hload herror
    refine changesNothing_of_parse hparse ?_
    rintro root asked _ _ _ _ rfl hload' hactive -
    cases hload.symm.trans hload'
    cases herror.symm.trans hactive
  · intro path? root dryRun asked hparse hobstructed
    refine changesNothing_of_parse hparse ?_
    rintro _ _ config _ _ _ hcommand - - hfound
    cases hcommand
    obtain ⟨error, herror⟩ := exists_discover_eq_error_iff.2 hobstructed
    cases herror.symm.trans hfound
  · intro config active root trails hstarts input
    rw [files_runProgram_of_startsWork hstarts]
    exact onlyRewrites_workOn ..
  · intro table root trails options schedule outcomes final hfound hrun
    exact onlyRewrites_of_translateTreeBy hfound hrun

/-! ### A page beside a link that leads nowhere -/

/-- The desk, with a directory that has a page and a link that leads nowhere. -/
def snag : FileSystem :=
  ((desk.set [manual] .directory).set [firstPage, manual] (.file (Utf8.encode ['J', 'a']))).set
    [secondPage, manual] (.link ['z'])

/-- There is an obstacle behind the page: the walk finds the page first. -/
theorem obstructedRoot_snag : ObstructedRoot snag ['d'] := by
  have hroot : snag.find .follow ['d'] = .ok ([manual], .directory) := by rfl
  have hchild : (secondPage, .link ['z']) ∈ snag.children [manual] := by decide +kernel
  have hnowhere : snag.find .follow (Path.join ['d'] secondPage.text) = .error .notFound := by rfl
  exact .inr ⟨[manual], hroot, .dangling hchild hnowhere⟩

/-- The page of the directory is left as it is, though the table would change it. The page of the
desk is rewritten, and the configuration beside it is not. -/
theorem writeAccess_snag :
    Invocation.parse ["apply".toList, ['d'], "--config".toList, ['c']] =
        some ⟨some ['c'], .apply ['d'] false none⟩ ∧
      (∃ read, Config.ofFile snag ['c'] = .ok (pagesConfig, read)) ∧
      ObstructedRoot snag ['d'] ∧
      (∀ input, (runProgram {} snag input
        ["apply".toList, ['d'], "--config".toList, ['c']]).files = snag) ∧
      StartsWork {} desk ["apply".toList, ['a', '.', 'm', 'd'], "--config".toList, ['c']]
        pagesConfig pagesTable ['a', '.', 'm', 'd'] [[]] ∧
      (runProgram {} desk []
        ["apply".toList, ['a', '.', 'm', 'd'], "--config".toList, ['c']]).files.get? [firstPage] =
          some (.file (Utf8.encode ['x'])) ∧
      (runProgram {} desk []
        ["apply".toList, ['a', '.', 'm', 'd'], "--config".toList, ['c']]).files.get? [settings] =
          desk.get? [settings] := by
  have hsnag : Invocation.parse ["apply".toList, ['d'], "--config".toList, ['c']] =
      some ⟨some ['c'], .apply ['d'] false none⟩ := by decide +kernel
  have hdesk : Invocation.parse
      ["apply".toList, ['a', '.', 'm', 'd'], "--config".toList, ['c']] =
        some ⟨some ['c'], .apply ['a', '.', 'm', 'd'] false none⟩ := by decide +kernel
  have hread : desk.read ['a', '.', 'm', 'd'] = .ok (Utf8.encode ['J', 'a']) := by decide +kernel
  have hload : ∃ records, Config.load {} desk (some ['c']) = .ok (pagesConfig, records) :=
    exists_eq_ok_of_map_fst (by decide +kernel)
  obtain ⟨records, hload⟩ := hload
  have hstarts : StartsWork {} desk
      ["apply".toList, ['a', '.', 'm', 'd'], "--config".toList, ['c']]
      pagesConfig pagesTable ['a', '.', 'm', 'd'] [[]] :=
    ⟨some ['c'], none, records, hdesk, hload, activeTable_pagesConfig,
      discover_of_read hread pagesConfig.extensions⟩
  have hrewrites := (writeAccess {} desk ["apply".toList, ['a', '.', 'm', 'd'], "--config".toList,
    ['c']]).onlyRewrites _ _ _ _ hstarts []
  refine ⟨hsnag, exists_eq_ok_of_map_fst (by decide +kernel), obstructedRoot_snag, ?_, hstarts, ?_,
    ?_⟩
  · exact (writeAccess {} snag ["apply".toList, ['d'], "--config".toList, ['c']]).of_obstructedRoot
      _ _ _ _ hsnag obstructedRoot_snag
  · rw [files_runProgram_of_startsWork hstarts]
    decide +kernel
  · by_contra hchanged
    obtain ⟨trail, htrail, hat, -⟩ := hrewrites.exists_document [settings] hchanged
    cases List.mem_singleton.1 htrail
    revert hat
    decide +kernel

end Phrasebook
