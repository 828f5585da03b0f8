import Phrasebook.Proofs.MatchOrder
import Phrasebook.Proofs.StreamAndFile
/-!
# One phrase table for all commands

Three places have a say in which shipped table a run starts from: the configuration, the environment
and the arguments. The environment is heard when the configuration is loaded, the arguments when a
command asks for its table, and a command that only validates has its own way to the table. In the
end there is one rule: the arguments go before the environment, and the environment before the
configuration. All commands follow it, so what one of them finds wrong with the table, the others
find wrong as well.

## Main definitions

* `Config.tableInForce`: the phrase table of a run.
* `Transcript.unrecorded`: what a run comes to, records aside.
* `Command.carryOut`: what a command comes to with a phrase table.
* `ShareTable`: what the runs with one configuration file have in common.

## Main results

* `Config.load_cases`: what the environment changes about a configuration.
* `unrecorded_perform`: each command works with the table in force.
* `shareTable`: the runs with one configuration file have that in common.
-/

namespace Phrasebook

/-! ### The choice of the shipped table -/

/-- The shipped table that the environment names, if it names one. -/
def Environment.namedTable? (environment : Environment) : Option ShippedTable :=
  environment.table.bind ShippedTable.ofName?

/-- The phrase table of a run: the one of the configuration, with the shipped table that the
arguments ask for, or else the one that the environment names, or else that of the configuration. -/
def Config.tableInForce (config : Config) (environment : Environment)
    (asked : Option ShippedTable) : Except TableError PhraseTable :=
  Config.phraseTable
    { config with table := (asked <|> environment.namedTable?).getD config.table }

/-- The shipped table that a command asks for. -/
def Command.table? : Command → Option ShippedTable
  | .apply _ _ table | .text table | .list table => table
  | .check => none

/-- The command, asking for another shipped table. -/
def Command.asking (table : Option ShippedTable) : Command → Command
  | .apply root dryRun _ => .apply root dryRun table
  | .text _ => .text table
  | .list _ => .list table
  | .check => .check

variable {config : Config}

/-- **What the environment changes about a configuration**: the shipped table, if it names one. -/
theorem Config.load_cases (environment : Environment) (files : FileSystem) (path? : Option Text) :
    match Config.ofFile files (path?.getD environment.configPath) with
    | .error error => Config.load environment files path? = .error error
    | .ok (config, _) => ∃ records, Config.load environment files path? =
        .ok (config.withTable environment.namedTable?, records) := by
  rw [Config.load]
  cases Config.ofFile files (path?.getD environment.configPath) with
  | error error => rfl
  | ok found =>
    obtain ⟨config, read⟩ := found
    rw [Environment.namedTable?]
    cases environment.table with
    | none => exact ⟨_, rfl⟩
    | some name =>
      simp only [Config.choose, Option.bind_some]
      cases ShippedTable.ofName? name with
      | none => exact ⟨_, rfl⟩
      | some table => exact ⟨_, rfl⟩

/-- The last choice counts. -/
theorem Config.withTable_withTable (first second : Option ShippedTable) :
    (config.withTable first).withTable second = config.withTable (second <|> first) := by
  cases second <;> rfl

theorem activeTable_withTable (environment : Environment) (asked : Option ShippedTable) :
    activeTable (config.withTable environment.namedTable?) asked =
      config.tableInForce environment asked := by
  rw [activeTable, Config.withTable_withTable]
  rfl

/-- Where no shipped table is used, none can be chosen. -/
theorem Config.tableInForce_of_not_usesShipped (h : config.usesShipped = false)
    (environment : Environment) (asked : Option ShippedTable) :
    config.tableInForce environment asked = PhraseTable.ofList config.phrases := by
  rw [Config.tableInForce, Config.phraseTable, h]
  rfl

theorem PhraseTable.Reachable.of_phraseTable {table : PhraseTable}
    (h : config.phraseTable = .ok table) : Reachable table := by
  rw [Config.phraseTable] at h
  split at h
  · exact .override (.shipped _) h
  · exact .ofList h

/-! ### The commands -/

/-- What a run comes to, records aside. -/
def Transcript.unrecorded (transcript : Transcript) : Transcript :=
  { transcript with records := [] }

@[simp] theorem Transcript.code_unrecorded (transcript : Transcript) :
    transcript.unrecorded.code = transcript.code :=
  rfl

@[simp] theorem Transcript.output_unrecorded (transcript : Transcript) :
    transcript.unrecorded.output = transcript.output :=
  rfl

@[simp] theorem Transcript.errors_unrecorded (transcript : Transcript) :
    transcript.unrecorded.errors = transcript.errors :=
  rfl

@[simp] theorem Transcript.files_unrecorded (transcript : Transcript) :
    transcript.unrecorded.files = transcript.files :=
  rfl

/-- What a command comes to with a phrase table and the extensions of documents. -/
def Command.carryOut (files : FileSystem) (input : List UInt8) (extensions : List Text)
    (active : PhraseTable) : Command → Transcript
  | .apply root dryRun _ => performApply files [] { extensions } active root dryRun
  | .text _ => performText files [] active input
  | .list _ => performList files [] active
  | .check => Transcript.success files [] (unlines ["ok: ".toList ++ mappings active])

variable {files : FileSystem}

theorem unrecorded_performApply (records : List Record) (active : PhraseTable) (root : Text)
    (dryRun : Bool) :
    (performApply files records config active root dryRun).unrecorded =
      (performApply files [] { extensions := config.extensions } active root
        dryRun).unrecorded := by
  rw [performApply, performApply]
  cases translateTree files active root ⟨config.extensions, dryRun⟩ <;> rfl

theorem unrecorded_performText (records : List Record) (active : PhraseTable)
    (input : List UInt8) :
    (performText files records active input).unrecorded =
      (performText files [] active input).unrecorded := by
  rw [performText, performText]
  cases Utf8.decode input <;> rfl

/-- **Each command works with the table in force**, or complains about it. -/
theorem unrecorded_perform (records : List Record) (input : List UInt8) (command : Command) :
    (perform files records config input command).unrecorded =
      match activeTable config command.table? with
      | .error error => Transcript.failure files [] (invalidTable error)
      | .ok active => (command.carryOut files input config.extensions active).unrecorded := by
  cases command with
  | check =>
    have hnone : activeTable config Command.check.table? = config.phraseTable := rfl
    rw [hnone, perform]
    cases config.phraseTable <;> rfl
  | apply root dryRun table =>
    simp only [perform, withActiveTable, Command.table?]
    cases activeTable config table with
    | error error => rfl
    | ok active => exact unrecorded_performApply _ active root dryRun
  | text table =>
    simp only [perform, withActiveTable, Command.table?]
    cases activeTable config table with
    | error error => rfl
    | ok active => exact unrecorded_performText _ active input
  | list table =>
    simp only [perform, withActiveTable, Command.table?]
    cases activeTable config table <;> rfl

/-- Which table a command asks for makes no difference once there is a table. -/
theorem Command.carryOut_asking (input : List UInt8) (extensions : List Text)
    (active : PhraseTable) (asked : Option ShippedTable) (command : Command) :
    (command.asking asked).carryOut files input extensions active =
      command.carryOut files input extensions active := by
  cases command <;> rfl

/-! ### The runs with one configuration file -/

/-- What a run starts from that reads the configuration file at `path?`, or at the default place:
the extensions of documents and the table in force, or the complaint with which it ends. -/
def startUp (environment : Environment) (files : FileSystem) (path? : Option Text)
    (asked : Option ShippedTable) : Except Text (List Text × PhraseTable) :=
  match Config.ofFile files (path?.getD environment.configPath) with
  | .error error => .error ("Config error: ".toList ++ error.message)
  | .ok (config, _) =>
    match config.tableInForce environment asked with
    | .error error => .error (invalidTable error)
    | .ok active => .ok (config.extensions, active)

variable {environment : Environment} {path? : Option Text} {arguments : List Text}
  {command : Command}

/-- **What a run of the program comes to, records aside**: a complaint, or what its command comes to
with the table in force. -/
theorem unrecorded_runProgram (hparse : Invocation.parse arguments = some ⟨path?, command⟩)
    (input : List UInt8) :
    (runProgram environment files input arguments).unrecorded =
      match startUp environment files path? command.table? with
      | .error complaint => Transcript.failure files [] complaint
      | .ok (extensions, active) =>
        (command.carryOut files input extensions active).unrecorded := by
  have hload := Config.load_cases environment files path?
  cases hfile : Config.ofFile files (path?.getD environment.configPath) with
  | error error =>
    rw [hfile] at hload
    rw [runProgram, runWithRecords, hparse]
    simp only [hload, startUp, hfile]
    rfl
  | ok found =>
    obtain ⟨config, read⟩ := found
    rw [hfile] at hload
    obtain ⟨records, hload⟩ := hload
    obtain ⟨shown, hrun⟩ := runProgram_eq hparse hload input
    rw [hrun]
    refine (unrecorded_perform records input command).trans ?_
    rw [activeTable_withTable]
    simp only [startUp, hfile]
    cases config.tableInForce environment command.table? <;> rfl

/-- Where no shipped table is used, a run starts from the phrases of the configuration alone. -/
theorem startUp_of_not_usesShipped {config : Config} {read : List Record}
    (hfile : Config.ofFile files (path?.getD environment.configPath) = .ok (config, read))
    (hnot : config.usesShipped = false) (asked : Option ShippedTable) :
    startUp environment files path? asked =
      match PhraseTable.ofList config.phrases with
      | .error error => .error (invalidTable error)
      | .ok active => .ok (config.extensions, active) := by
  simp only [startUp, hfile, Config.tableInForce_of_not_usesShipped hnot]

theorem reachable_of_startUp {asked : Option ShippedTable} {extensions : List Text}
    {active : PhraseTable} (h : startUp environment files path? asked = .ok (extensions, active)) :
    active.Reachable := by
  rw [startUp] at h
  split at h
  · cases h
  · split at h
    · cases h
    · rename_i htable
      cases h
      exact .of_phraseTable htable

/-- What the runs with the configuration file at `path?`, or at the default place, have in common,
records aside. -/
structure ShareTable (environment : Environment) (files : FileSystem) (path? : Option Text) :
    Prop where
  /-- Every command works with the table in force, unless the run ends with a complaint. -/
  unrecorded_eq : ∀ input arguments command,
    Invocation.parse arguments = some ⟨path?, command⟩ →
      (runProgram environment files input arguments).unrecorded =
        match startUp environment files path? command.table? with
        | .error complaint => Transcript.failure files [] complaint
        | .ok (extensions, active) =>
          (command.carryOut files input extensions active).unrecorded
  /-- If no shipped table is used, the table and the run are the same whatever the environment and
  the arguments ask for. -/
  of_not_usesShipped : ∀ config read,
    Config.ofFile files (path?.getD environment.configPath) = .ok (config, read) →
    config.usesShipped = false → ∀ named asked,
      startUp { environment with table := named } files path? asked =
        startUp environment files path? none ∧
      ∀ input arguments arguments' command,
        Invocation.parse arguments = some ⟨path?, command⟩ →
        Invocation.parse arguments' = some ⟨path?, command.asking asked⟩ →
          (runProgram { environment with table := named } files input arguments').unrecorded =
            (runProgram environment files input arguments).unrecorded
  /-- The table passes validation exactly if it can be listed. Then it is listed phrase by phrase in
  match order, and both commands count its phrases. -/
  check_iff_list : ∀ input input' checking listing,
    Invocation.parse checking = some ⟨path?, .check⟩ →
    Invocation.parse listing = some ⟨path?, .list none⟩ →
      let check := runProgram environment files input checking
      let list := runProgram environment files input' listing
      ((check.code = 0 ∧ ∃ active, check.output = unlines ["ok: ".toList ++ mappings active]) ↔
        list.code = 0) ∧
      (list.code = 0 → ∃ extensions active,
        startUp environment files path? none = .ok (extensions, active) ∧
        active.phrases.Pairwise Phrase.ComesBefore ∧
        check.output = unlines ["ok: ".toList ++ mappings active] ∧
        list.output = unlines (active.phrases.map (fun phrase =>
          phrase.source ++ '\t' :: phrase.target) ++ [mappings active]))
  /-- If it cannot be listed, every command that asks for no other table ends with the same
  complaint and prints nothing. -/
  of_list_fails : ∀ input listing, Invocation.parse listing = some ⟨path?, .list none⟩ →
    let list := runProgram environment files input listing
    list.code ≠ 0 → ∀ input' arguments command,
      Invocation.parse arguments = some ⟨path?, command⟩ → command.table? = none →
        let run := runProgram environment files input' arguments
        run.code = 1 ∧ run.output = [] ∧ run.errors = list.errors

/-- **The runs with one configuration file work with the same table**, each by what it is asked
for. -/
theorem shareTable (environment : Environment) (files : FileSystem) (path? : Option Text) :
    ShareTable environment files path? := by
  refine ⟨fun input arguments command hparse => unrecorded_runProgram hparse input, ?_, ?_, ?_⟩
  · intro config read hfile hnot named asked
    have hfile' : Config.ofFile files
        (path?.getD { environment with table := named }.configPath) = .ok (config, read) := hfile
    have hstart := startUp_of_not_usesShipped hfile hnot
    have hstart' := startUp_of_not_usesShipped hfile' hnot
    refine ⟨(hstart' asked).trans (hstart none).symm, ?_⟩
    intro input arguments arguments' command hparse hparse'
    rw [unrecorded_runProgram hparse, unrecorded_runProgram hparse', hstart, hstart']
    simp only [Command.carryOut_asking]
  · intro input input' checking listing hcheck hlist check list
    have hchecked : check.unrecorded = _ := unrecorded_runProgram hcheck input
    have hlisted : list.unrecorded = _ := unrecorded_runProgram hlist input'
    simp only [Command.table?] at hchecked hlisted
    cases hstart : startUp environment files path? none with
    | error complaint =>
      rw [hstart] at hchecked hlisted
      have hcode : check.code = 1 := congrArg Transcript.code hchecked
      have hcode' : list.code = 1 := congrArg Transcript.code hlisted
      simp [hcode, hcode']
    | ok start =>
      obtain ⟨extensions, active⟩ := start
      rw [hstart] at hchecked hlisted
      have hcode : check.code = 0 := congrArg Transcript.code hchecked
      have hcode' : list.code = 0 := congrArg Transcript.code hlisted
      have houtput : check.output = unlines ["ok: ".toList ++ mappings active] :=
        congrArg Transcript.output hchecked
      refine ⟨iff_of_true ⟨hcode, active, houtput⟩ hcode', fun _ => ?_⟩
      exact ⟨extensions, active, rfl, (reachable_of_startUp hstart).pairwise_comesBefore, houtput,
        congrArg Transcript.output hlisted⟩
  · intro input listing hlist list hcode input' arguments command hparse htable run
    have hlisted : list.unrecorded = _ := unrecorded_runProgram hlist input
    have hran : run.unrecorded = _ := unrecorded_runProgram hparse input'
    rw [htable] at hran
    simp only [Command.table?] at hlisted
    cases hstart : startUp environment files path? none with
    | error complaint =>
      rw [hstart] at hlisted hran
      have herrors : run.errors = complaint ++ ['\n'] := congrArg Transcript.errors hran
      have herrors' : list.errors = complaint ++ ['\n'] := congrArg Transcript.errors hlisted
      exact ⟨congrArg Transcript.code hran, congrArg Transcript.output hran,
        herrors.trans herrors'.symm⟩
    | ok start =>
      rw [hstart] at hlisted
      exact absurd (congrArg Transcript.code hlisted) hcode

/-! ### A configuration without a shipped table -/

theorem exists_ofFile_desk : ∃ read, Config.ofFile desk ['c'] = .ok (pagesConfig, read) :=
  exists_eq_ok_of_map_fst (by decide +kernel)

/-- The configuration of the desk has one phrase and uses no shipped table. It is validated, it is
listed, and it is listed in the same way if the environment and the arguments ask for the shipped
tables. -/
theorem shareTable_desk :
    Invocation.parse ["--config".toList, ['c'], "check".toList] = some ⟨some ['c'], .check⟩ ∧
      Invocation.parse ["--config".toList, ['c'], "list".toList] =
        some ⟨some ['c'], .list none⟩ ∧
      Invocation.parse ["--config".toList, ['c'], "list".toList, "--table=headings".toList] =
        some ⟨some ['c'], .list (some .headings)⟩ ∧
      (runProgram {} desk [] ["--config".toList, ['c'], "check".toList]).output =
        "ok: 1 mappings\n".toList ∧
      (runProgram {} desk [] ["--config".toList, ['c'], "list".toList]).output =
        "Ja\tx\n1 mappings\n".toList ∧
      (runProgram { table := some "glossary".toList } desk []
          ["--config".toList, ['c'], "list".toList, "--table=headings".toList]).unrecorded =
        (runProgram {} desk [] ["--config".toList, ['c'], "list".toList]).unrecorded := by
  have hcheck : Invocation.parse ["--config".toList, ['c'], "check".toList] =
      some ⟨some ['c'], .check⟩ := by decide +kernel
  have hlist : Invocation.parse ["--config".toList, ['c'], "list".toList] =
      some ⟨some ['c'], .list none⟩ := by decide +kernel
  have hasked : Invocation.parse
      ["--config".toList, ['c'], "list".toList, "--table=headings".toList] =
        some ⟨some ['c'], .list (some .headings)⟩ := by decide +kernel
  obtain ⟨read, hfile⟩ := exists_ofFile_desk
  have hstart : startUp {} desk (some ['c']) none = .ok (pagesConfig.extensions, pagesTable) := by
    rw [@startUp_of_not_usesShipped desk {} (some ['c']) pagesConfig read hfile rfl none]
    have hlist : PhraseTable.ofList pagesConfig.phrases = .ok pagesTable := activeTable_pagesConfig
    rw [hlist]
  have hshare := shareTable {} desk (some ['c'])
  have hchecked := hshare.unrecorded_eq [] _ _ hcheck
  have hlisted := hshare.unrecorded_eq [] _ _ hlist
  simp only [Command.table?, hstart] at hchecked hlisted
  obtain ⟨-, hsame⟩ := hshare.of_not_usesShipped _ _ hfile rfl (some "glossary".toList)
    (some .headings)
  refine ⟨hcheck, hlist, hasked, ?_, ?_, ?_⟩
  · have houtput := congrArg Transcript.output hchecked
    simp only [Transcript.output_unrecorded, Command.carryOut, Transcript.success] at houtput
    rw [houtput]
    decide +kernel
  · have houtput := congrArg Transcript.output hlisted
    simp only [Transcript.output_unrecorded, Command.carryOut, performList, Transcript.success]
      at houtput
    rw [houtput]
    decide +kernel
  · exact hsame [] _ _ (.list none) hlist hasked

end Phrasebook
