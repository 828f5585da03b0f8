import Phrasebook.Proofs.DryRun
/-!
# Translating a stream and translating a file

The same octets can be given to the program on its standard input, or in a file that it is to
translate in place. The two ways have their own reading, their own complaints and their own ends.
Yet they end with the same code, and the stream gets the octets that the file gets; and if there is
no text to translate, or no valid table, the stream gets none and the file keeps its own. Only the
second way has to find the file by its path, and to write it: a path that is too long, or a file
that is read-only, makes that one fail, and the file keeps its octets.

## Main definitions

* `StreamFileAgree`: what the two runs have in common.

## Main results

* `performText_of_text`, `performApply_of_text`: either way with a text.
* `performText_of_not_text`: the stream with octets of no text.
* `performApply_of_failsFor`: the file, if it has octets of no text or cannot be written.
* `runProgram_text_apply`: the two runs agree on all octets, if the file can be read, and written
  where that has to be.
* `runProgram_ne_of_desk`: two files for which they do not.
-/

namespace Phrasebook

open FileSystem

variable {files : FileSystem} {path : Text} {octets : List UInt8} {config : Config}
  {records : List Record}

/-! ### The stream -/

theorem performText_of_text (files : FileSystem) (records : List Record) (table : PhraseTable)
    (text : Text) :
    (performText files records table (Utf8.encode text)).code = 0 ∧
      (performText files records table (Utf8.encode text)).output =
        (table.translate text).text := by
  rw [performText, Utf8.decode_encode]
  exact ⟨rfl, rfl⟩

theorem performText_of_not_text (files : FileSystem) (records : List Record)
    (table : PhraseTable) (hnone : ∀ text, octets ≠ Utf8.encode text) :
    (performText files records table octets).code = 1 ∧
      (performText files records table octets).output = [] := by
  have hdecode := Utf8.decode?_eq_none_iff.2 hnone
  rw [Utf8.decode?] at hdecode
  rw [performText]
  cases hread : Utf8.decode octets with
  | error malformed => exact ⟨rfl, rfl⟩
  | ok text =>
    rw [hread] at hdecode
    cases hdecode

theorem files_performText (files : FileSystem) (records : List Record) (table : PhraseTable)
    (octets : List UInt8) : (performText files records table octets).files = files := by
  rw [performText]
  cases Utf8.decode octets <;> rfl

/-! ### The file -/

/-- A file is its own only document, whatever its name. -/
theorem discover_of_read (h : files.read path = .ok octets) (extensions : List Text) :
    discover files path extensions = .ok [[]] := by
  obtain ⟨location, hat, -⟩ := read_eq_ok_iff.1 h
  obtain ⟨old, hplace⟩ := fileAt?_eq_some_iff.1 hat
  have hfile : files.isFile path = true := by
    rw [isFile, find, hplace]
  rw [discover, if_pos hfile]

/-- The transcript of a run over one file. -/
theorem performApply_of_read (h : files.read path = .ok octets) (records : List Record)
    (config : Config) (table : PhraseTable) :
    ∃ found, performApply files records config table path false =
      summarize (workOn files table false path [[]] (rounds 1)).files (records ++ [found])
        table.size false [⟨[], path, settledResult files table false path⟩] :=
  performApply_eq files records config table path false (discover_of_read h config.extensions)
    (List.pairwise_singleton _ _)

/-- What the file reads after the run. -/
theorem read_performApply (h : files.read path = .ok octets) (records : List Record)
    (config : Config) (table : PhraseTable) :
    (performApply files records config table path false).files.read path =
      settledRead files table false path := by
  obtain ⟨found, hrun⟩ := performApply_of_read h records config table
  have htrack := onTrack_workOn files table false path [[]] (rounds 1)
  have hapart : files.Apart ([[]].map (Path.joinAll path)) := List.pairwise_singleton _ _
  have hnumber : ([[]].map (Path.joinAll path))[0]? = some path := rfl
  rw [hrun]
  exact htrack.read_eq_settledRead isOver_workOn_rounds hnumber
    (hapart.undisturbed table false 0)

theorem performApply_of_text {text : Text} (h : files.read path = .ok (Utf8.encode text))
    (records : List Record) (config : Config) {table : PhraseTable}
    (hallowed : ¬ files.IsRefused table false path) :
    (performApply files records config table path false).code = 0 ∧
      (performApply files records config table path false).files.read path =
        .ok (Utf8.encode (table.translate text).text) := by
  have htext := readText_eq_ok_iff.2 h
  obtain ⟨found, hrun⟩ := performApply_of_read h records config table
  refine ⟨?_, (read_performApply h records config table).trans (settledRead_of_text htext hallowed)⟩
  rw [hrun, settledResult_of_text htext hallowed]
  rfl

/-- A run over a file on which the work fails changes nothing. -/
theorem performApply_of_failsFor (h : files.read path = .ok octets) (records : List Record)
    (config : Config) {table : PhraseTable} {cause : IoError}
    (hfails : files.FailsFor table false path cause) :
    (performApply files records config table path false).code = 1 ∧
      (performApply files records config table path false).files = files := by
  obtain ⟨found, hrun⟩ := performApply_of_read h records config table
  rw [hrun, settledResult_of_failsFor hfails]
  refine ⟨rfl, (onTrack_workOn files table false path [[]] (rounds 1)).files_eq fun p hp => ?_⟩
  cases List.mem_singleton.1 hp
  exact hfails.not_isRewritten

/-- A run over a file by a path that is too long finds nothing. -/
theorem performApply_of_isTooLong (hlong : Path.isTooLong path = true) (hnul : '\x00' ∉ path)
    (hne : path ≠ []) (files : FileSystem) (records : List Record) (config : Config)
    (table : PhraseTable) (dryRun : Bool) :
    (performApply files records config table path dryRun).code = 1 ∧
      (performApply files records config table path dryRun).files = files := by
  have hresolve : ∀ ending, files.resolve ending path = .error .nameTooLong := fun ending => by
    rw [resolve, if_neg hnul, if_neg hne, if_pos hlong]
  have hfound : ∃ error, discover files path config.extensions = .error error := by
    refine ⟨.io path .nameTooLong, ?_⟩
    simp only [discover, isFile, walkRoot, find, hresolve]
    rfl
  obtain ⟨error, hfound⟩ := hfound
  simp only [performApply, translateTree, translateTreeBy, hfound]
  exact ⟨rfl, rfl⟩

/-! ### The two runs -/

/-- What a run that translates a stream and a run that translates a file have in common, if both are
given the same octets and the same table. -/
structure StreamFileAgree (files : FileSystem) (path : Text) (octets : List UInt8)
    (table : Except TableError PhraseTable) (stream file : Transcript) : Prop where
  /-- A text is translated. The octets of the output are those that the file has in the end, if the
  text stays as it is or the file can be written. -/
  of_text : ∀ active text, table = .ok active → octets = Utf8.encode text →
    ((active.translate text).text ≠ text → ¬ files.IsReadOnly path) →
      stream.code = 0 ∧ file.code = 0 ∧ stream.output = (active.translate text).text ∧
        file.files.read path = .ok (Utf8.encode stream.output)
  /-- If the text does not stay as it is and the file cannot be written, the stream is translated
  all the same, and the other run fails and changes nothing. -/
  of_readOnly : ∀ active text, table = .ok active → octets = Utf8.encode text →
    (active.translate text).text ≠ text → files.IsReadOnly path →
      stream.code = 0 ∧ file.code = 1 ∧ stream.output = (active.translate text).text ∧
        file.files = files
  /-- If the octets are no text, both runs fail, nothing is put out and the file keeps them. -/
  of_not_text : ∀ active, table = .ok active → (∀ text, octets ≠ Utf8.encode text) →
    stream.code = 1 ∧ file.code = 1 ∧ stream.output = [] ∧ file.files.read path = .ok octets
  /-- If the table is not valid, both runs fail with the same complaint, and nothing happens. -/
  of_invalid : ∀ error, table = .error error →
    stream.code = 1 ∧ file.code = 1 ∧ stream.errors = invalidTable error ++ ['\n'] ∧
      file.errors = invalidTable error ++ ['\n'] ∧ stream.output = [] ∧ file.output = [] ∧
        file.files = files
  /-- Translating a stream changes no file. -/
  files_eq : stream.files = files

/-- Records aside, a run comes to what its command comes to. -/
theorem runProgram_eq {environment : Environment} {arguments : List Text}
    {invocation : Invocation} (hparse : Invocation.parse arguments = some invocation)
    (hload : Config.load environment files invocation.config = .ok (config, records))
    (input : List UInt8) :
    ∃ shown, runProgram environment files input arguments =
      { perform files records config input invocation.command with records := shown } := by
  rw [runProgram, runWithRecords, hparse]
  simp only [hload]
  exact ⟨_, rfl⟩

/-- The two commands with one configuration. -/
theorem perform_text_apply (h : files.read path = .ok octets) (records : List Record)
    (config : Config) (table : Option ShippedTable) (input : List UInt8) :
    StreamFileAgree files path octets (activeTable config table)
      (perform files records config octets (.text table))
      (perform files records config input (.apply path false table)) := by
  cases htable : activeTable config table with
  | error e =>
    simp only [perform, withActiveTable, htable]
    refine ⟨?_, ?_, ?_, ?_, rfl⟩
    · rintro active text ⟨⟩
    · rintro active text ⟨⟩
    · rintro active ⟨⟩
    · rintro error ⟨⟩
      exact ⟨rfl, rfl, rfl, rfl, rfl, rfl, rfl⟩
  | ok active =>
    simp only [perform, withActiveTable, htable]
    generalize records ++ [loaded (config.withTable table) active] = made
    refine ⟨?_, ?_, ?_, ?_, files_performText ..⟩
    · rintro _ text ⟨⟩ rfl hwritable
      obtain ⟨hcode, houtput⟩ := performText_of_text files made active text
      have hallowed : ¬ files.IsRefused active false path := by
        rw [isRefused_iff (readText_eq_ok_iff.2 h)]
        exact fun hrefused => hwritable hrefused.1.1 hrefused.2
      obtain ⟨hcode', hread⟩ := performApply_of_text h made config hallowed
      exact ⟨hcode, hcode', houtput, houtput ▸ hread⟩
    · rintro _ text ⟨⟩ rfl hne hreadOnly
      obtain ⟨hcode, houtput⟩ := performText_of_text files made active text
      have hfails : files.FailsFor active false path .permissionDenied :=
        .inr ⟨rfl, ⟨text, readText_eq_ok_iff.2 h, hne, rfl⟩, hreadOnly⟩
      obtain ⟨hcode', hfiles⟩ := performApply_of_failsFor h made config hfails
      exact ⟨hcode, hcode', houtput, hfiles⟩
    · rintro _ ⟨⟩ hnone
      obtain ⟨hcode, houtput⟩ := performText_of_not_text files made active hnone
      have hfails : files.FailsFor active false path .notUtf8 := .inl (readText_of_not_text h hnone)
      obtain ⟨hcode', hfiles⟩ := performApply_of_failsFor h made config hfails
      exact ⟨hcode, hcode', houtput, hfiles.symm ▸ h⟩
    · rintro error ⟨⟩

/-- **Translating a stream and translating a file agree on all octets**, whatever the configuration
and the environment, if the arguments name the same configuration file and the same table, and the
file can be read by its path. -/
theorem runProgram_text_apply {environment : Environment}
    {textArguments applyArguments : List Text} {configPath : Option Text}
    {table : Option ShippedTable}
    (htext : Invocation.parse textArguments = some ⟨configPath, .text table⟩)
    (happly : Invocation.parse applyArguments = some ⟨configPath, .apply path false table⟩)
    (hload : Config.load environment files configPath = .ok (config, records))
    (hread : files.read path = .ok octets) (input : List UInt8) :
    StreamFileAgree files path octets (activeTable config table)
      (runProgram environment files octets textArguments)
      (runProgram environment files input applyArguments) := by
  obtain ⟨_, hstream⟩ := runProgram_eq htext hload octets
  obtain ⟨_, hfile⟩ := runProgram_eq happly hload input
  have hagree := perform_text_apply hread records config table input
  rw [hstream, hfile]
  exact ⟨hagree.of_text, hagree.of_readOnly, hagree.of_not_text, hagree.of_invalid, hagree.files_eq⟩

/-! ### A page and a configuration -/

/-- The name of a configuration file. -/
def settings : FileName :=
  ⟨['c'], by decide⟩

/-- A file system with a page, and a file that configures `pagesTable`. -/
def desk : FileSystem where
  entries := [([settings], .file (Utf8.encode
      "use_builtin_table = false\nphrases = [[\"Ja\", \"x\"]]\n".toList)),
    ([firstPage], .file (Utf8.encode ['J', 'a']))]
  workingDirectory := []
  nodup := by decide

theorem translate_page : (pagesTable.translate ['J', 'a']).text = ['x'] := by
  decide +kernel

/-- The text of the page is translated in the same way on the standard input. -/
theorem runProgram_of_desk :
    Invocation.parse ["--config".toList, ['c'], "text".toList] = some ⟨some ['c'], .text none⟩ ∧
      Invocation.parse ["apply".toList, ['a', '.', 'm', 'd'], "--config".toList, ['c']] =
        some ⟨some ['c'], .apply ['a', '.', 'm', 'd'] false none⟩ ∧
      (∃ records, Config.load {} desk (some ['c']) = .ok (pagesConfig, records)) ∧
      desk.read ['a', '.', 'm', 'd'] = .ok (Utf8.encode ['J', 'a']) ∧
      (runProgram {} desk (Utf8.encode ['J', 'a'])
        ["--config".toList, ['c'], "text".toList]).output = ['x'] ∧
      (runProgram {} desk []
        ["apply".toList, ['a', '.', 'm', 'd'], "--config".toList, ['c']]).files.read
          ['a', '.', 'm', 'd'] = .ok (Utf8.encode ['x']) := by
  have htext : Invocation.parse ["--config".toList, ['c'], "text".toList] =
      some ⟨some ['c'], .text none⟩ := by decide +kernel
  have happly : Invocation.parse
      ["apply".toList, ['a', '.', 'm', 'd'], "--config".toList, ['c']] =
        some ⟨some ['c'], .apply ['a', '.', 'm', 'd'] false none⟩ := by decide +kernel
  have hread : desk.read ['a', '.', 'm', 'd'] = .ok (Utf8.encode ['J', 'a']) := by decide +kernel
  have hload : ∃ records, Config.load {} desk (some ['c']) = .ok (pagesConfig, records) :=
    exists_eq_ok_of_map_fst (by decide +kernel)
  have hwritable : ¬ desk.IsReadOnly ['a', '.', 'm', 'd'] := fun ⟨_, hmem, _⟩ => nomatch hmem
  obtain ⟨records, hload⟩ := hload
  obtain ⟨-, -, houtput, hfile⟩ := (runProgram_text_apply htext happly hload hread
    []).of_text pagesTable ['J', 'a'] activeTable_pagesConfig rfl fun _ => hwritable
  rw [houtput, translate_page] at hfile
  exact ⟨htext, happly, ⟨records, hload⟩, hread, houtput.trans translate_page, hfile⟩

/-! ### A page that is not translated -/

/-- The desk, with a page that cannot be written. -/
def lockedDesk : FileSystem :=
  { desk with readOnly := [[firstPage]] }

/-- A path to the page of the desk that is too long to be followed. -/
def longPath : Text :=
  dots 2046 ++ ['a', '.', 'm', 'd']

/-- The text of the page is translated on the standard input, whatever becomes of the page. -/
theorem runProgram_of_performApply
    (happly : Invocation.parse ["apply".toList, path, "--config".toList, ['c']] =
      some ⟨some ['c'], .apply path false none⟩)
    (hload : ∃ records, Config.load {} files (some ['c']) = .ok (pagesConfig, records))
    (hfails : ∀ records,
      (performApply files records pagesConfig pagesTable path false).code = 1 ∧
        (performApply files records pagesConfig pagesTable path false).files = files) :
    (runProgram {} files (Utf8.encode ['J', 'a'])
        ["--config".toList, ['c'], "text".toList]).code = 0 ∧
      (runProgram {} files (Utf8.encode ['J', 'a'])
        ["--config".toList, ['c'], "text".toList]).output = ['x'] ∧
      (runProgram {} files [] ["apply".toList, path, "--config".toList, ['c']]).code = 1 ∧
      (runProgram {} files [] ["apply".toList, path, "--config".toList, ['c']]).files = files := by
  have htext : Invocation.parse ["--config".toList, ['c'], "text".toList] =
      some ⟨some ['c'], .text none⟩ := by decide +kernel
  obtain ⟨records, hload⟩ := hload
  obtain ⟨_, hstream⟩ := runProgram_eq htext hload (Utf8.encode ['J', 'a'])
  obtain ⟨_, hfile⟩ := runProgram_eq happly hload []
  rw [hstream, hfile]
  simp only [perform, withActiveTable, activeTable_pagesConfig]
  obtain ⟨hcode, houtput⟩ := performText_of_text files
    (records ++ [loaded (pagesConfig.withTable none) pagesTable]) pagesTable ['J', 'a']
  exact ⟨hcode, houtput.trans translate_page, hfails _⟩

/-- **A stream is translated where a file with the same octets is not**: first a file that can be
read but not written, then one that is given by too long a path. The second run fails each time, and
the file keeps its octets. -/
theorem runProgram_ne_of_desk :
    (lockedDesk.read ['a', '.', 'm', 'd'] = .ok (Utf8.encode ['J', 'a']) ∧
      (runProgram {} lockedDesk (Utf8.encode ['J', 'a'])
        ["--config".toList, ['c'], "text".toList]).code = 0 ∧
      (runProgram {} lockedDesk (Utf8.encode ['J', 'a'])
        ["--config".toList, ['c'], "text".toList]).output = ['x'] ∧
      (runProgram {} lockedDesk []
        ["apply".toList, ['a', '.', 'm', 'd'], "--config".toList, ['c']]).code = 1 ∧
      (runProgram {} lockedDesk []
        ["apply".toList, ['a', '.', 'm', 'd'], "--config".toList, ['c']]).files = lockedDesk) ∧
    Path.isTooLong longPath = true ∧
      resolveFrom desk .follow maxLinks [] (Path.steps longPath) =
        .ok (.present [firstPage] (.file (Utf8.encode ['J', 'a']))) ∧
      (runProgram {} desk (Utf8.encode ['J', 'a'])
        ["--config".toList, ['c'], "text".toList]).code = 0 ∧
      (runProgram {} desk (Utf8.encode ['J', 'a'])
        ["--config".toList, ['c'], "text".toList]).output = ['x'] ∧
      (runProgram {} desk [] ["apply".toList, longPath, "--config".toList, ['c']]).code = 1 ∧
      (runProgram {} desk [] ["apply".toList, longPath, "--config".toList, ['c']]).files =
        desk := by
  refine ⟨?_, ?_⟩
  · have hread : lockedDesk.read ['a', '.', 'm', 'd'] = .ok (Utf8.encode ['J', 'a']) := by
      decide +kernel
    have hreadOnly : lockedDesk.IsReadOnly ['a', '.', 'm', 'd'] := by decide +kernel
    have hne : (pagesTable.translate ['J', 'a']).text ≠ ['J', 'a'] := by
      rw [translate_page]
      decide
    have hfails : lockedDesk.FailsFor pagesTable false ['a', '.', 'm', 'd'] .permissionDenied :=
      .inr ⟨rfl, ⟨_, readText_eq_ok_iff.2 hread, hne, rfl⟩, hreadOnly⟩
    exact ⟨hread, runProgram_of_performApply (by decide +kernel)
      (exists_eq_ok_of_map_fst (by decide +kernel))
      fun records => performApply_of_failsFor hread records pagesConfig hfails⟩
  · have hlong : Path.isTooLong longPath = true := by
      rw [Path.isTooLong, longPath, size_dots]
      rfl
    have hsteps : resolveFrom desk .follow maxLinks [] (Path.steps longPath) =
        .ok (.present [firstPage] (.file (Utf8.encode ['J', 'a']))) := by
      rw [longPath, steps_dots, resolveFrom_replicate_here]
      rfl
    have hnul : '\x00' ∉ longPath := nul_not_mem_dots (by decide) 2046
    have hne : longPath ≠ [] := List.append_ne_nil_of_right_ne_nil _ (List.cons_ne_nil _ _)
    exact ⟨hlong, hsteps, runProgram_of_performApply (by rfl)
      (exists_eq_ok_of_map_fst (by decide +kernel))
      fun records => performApply_of_isTooLong hlong hnul hne desk records _ _ _⟩

end Phrasebook
