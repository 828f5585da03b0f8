import Phrasebook.CommandLine.Run
import Phrasebook.Proofs.Consistent
import Phrasebook.Proofs.TreeRun
/-!
# What a dry run tells of the run

A dry run reads the same documents as the run that it stands for, and prints the same about each of
them, if the run can write what it has to. Both count the documents that they have written, and
print that number at the end: a dry run writes none, so what it says would be rewritten is always
nothing.

## Main definitions

* `DistinctDocuments`: the documents under a root are different files.
* `WritesSucceed`: the documents under a root that have to be rewritten can be.
* `documentTexts`: the texts of the documents that can be read.
* `summaryLine`: the numbers that a run ends with.
* `Foretells`: what a dry run tells of the run that it stands for.

## Main results

* `performApply_eq`: the transcript of a run over documents that are different files.
* `perform_apply_of_dryRun`: a dry run tells everything of the run that it stands for but the number
  of documents that are rewritten.

## Implementation notes

The program follows one schedule, but by `translateTreeBy_eq` any other would give the same
outcomes.
-/

namespace Phrasebook

open FileSystem

/-- Different documents under a root are different files. -/
def DistinctDocuments (files : FileSystem) (root : Text) (extensions : List Text) : Prop :=
  ∀ trails, discover files root extensions = .ok trails →
    ∀ s ∈ trails, ∀ t ∈ trails, s ≠ t → ∀ location,
      files.fileAt? (Path.joinAll root s) = some location →
        files.fileAt? (Path.joinAll root t) ≠ some location

/-- No document under a root that the table changes is read-only. -/
def WritesSucceed (files : FileSystem) (table : PhraseTable) (root : Text)
    (extensions : List Text) : Prop :=
  ∀ trails, discover files root extensions = .ok trails →
    ∀ trail ∈ trails, ¬ files.IsRefused table false (Path.joinAll root trail)

/-- The last line of a run: the documents, the substitutions in them, the documents that were
written, after a verb, and those on which the work has failed. -/
def summaryLine (documents substitutions : Nat) (verb : String) (written failed : Nat) : Text :=
  (s!"{documents} documents, {substitutions} substitutions, " ++
    s!"{verb} {written}, {failed} failed").toList

/-- The texts of the documents that can be read. -/
def documentTexts (files : FileSystem) (root : Text) (trails : List Trail) : List Text :=
  trails.filterMap fun trail => (files.readText (Path.joinAll root trail)).toOption

/-- The substitutions in all the texts. -/
def totalSubstitutions (table : PhraseTable) (texts : List Text) : Nat :=
  texts.foldr (fun text total => (table.translate text).substitutions + total) 0

variable {files : FileSystem} {table : PhraseTable} {root : Text} {extensions : List Text}
  {trails : List Trail}

/-- Without links, different documents are different files. -/
theorem distinctDocuments_of_linkFree (hlinks : files.LinkFree) (root : Text)
    (extensions : List Text) : DistinctDocuments files root extensions := by
  intro trails hfound s hs t ht hne location hats hatt
  obtain ⟨base, entry, -, hlead⟩ := exists_base_of_discover hlinks hfound
  exact hne ((hlead s hs).eq_of_fileAt? (hlead t ht) hats hatt)

theorem DistinctDocuments.apart (h : DistinctDocuments files root extensions)
    (hfound : discover files root extensions = .ok trails) :
    files.Apart (trails.map (Path.joinAll root)) :=
  List.pairwise_map.2 ((nodup_discover hfound).imp_of_mem fun hs ht hne =>
    h trails hfound _ hs _ ht hne)

/-! ### What is printed about settled outcomes -/

theorem settledResult_of_text_any {dryRun : Bool} {path text : Text}
    (htext : files.readText path = .ok text) (hallowed : ¬ files.IsRefused table false path) :
    settledResult files table dryRun path =
      .ok ((table.translate text).report (decide (Rewrites table dryRun text))) :=
  settledResult_of_text htext fun hrefused => hallowed hrefused.of_dryRun

section

variable (dryRun : Bool)
  (hallowed : ∀ trail ∈ trails, ¬ files.IsRefused table false (Path.joinAll root trail))

include hallowed

theorem reports_settled :
    reports (trails.map (settledOutcome files table dryRun root)) =
      (documentTexts files root trails).map fun text =>
        (table.translate text).report (decide (Rewrites table dryRun text)) := by
  rw [reports, documentTexts, List.filterMap_map, List.map_filterMap]
  refine List.filterMap_congr fun trail htrail => ?_
  simp only [Function.comp, settledOutcome]
  cases htext : files.readText (Path.joinAll root trail) with
  | error cause => rw [settledResult_of_error htext]; rfl
  | ok text => rw [settledResult_of_text_any htext (hallowed trail htrail)]; rfl

/-- What is printed about the documents is the same in a dry run. -/
theorem map_line_settledOutcome (phrases : Nat) :
    (trails.map (settledOutcome files table dryRun root)).map (Outcome.line phrases) =
      (trails.map (settledOutcome files table false root)).map (Outcome.line phrases) := by
  rw [List.map_map, List.map_map]
  refine List.map_congr_left fun trail htrail => ?_
  simp only [Function.comp, Outcome.line, settledOutcome]
  cases htext : files.readText (Path.joinAll root trail) with
  | error cause => rw [settledResult_of_error htext, settledResult_of_error htext]
  | ok text =>
    rw [settledResult_of_text_any htext (hallowed trail htrail),
      settledResult_of_text_any htext (hallowed trail htrail)]
    rfl

theorem closingLine_settled :
    closingLine dryRun (trails.map (settledOutcome files table dryRun root)) =
      summaryLine trails.length
        (totalSubstitutions table (documentTexts files root trails))
        (if dryRun then "would rewrite" else "rewrote")
        ((documentTexts files root trails).countP fun text => Rewrites table dryRun text)
        (trails.length - (documentTexts files root trails).length) := by
  rw [closingLine, reports_settled dryRun hallowed]
  simp only [List.length_map, List.foldr_map, List.countP_map]
  rfl

end

/-! ### The transcript of a run -/

variable {config : Config} {records : List Record} {dryRun : Bool}

/-- The transcript of a run over documents that are different files. -/
theorem performApply_eq (files : FileSystem) (records : List Record) (config : Config)
    (table : PhraseTable) (root : Text) (dryRun : Bool)
    (hfound : discover files root config.extensions = .ok trails)
    (hapart : files.Apart (trails.map (Path.joinAll root))) :
    ∃ found, performApply files records config table root dryRun =
      summarize (workOn files table dryRun root trails (rounds trails.length)).files
        (records ++ [found]) table.size dryRun
        (trails.map (settledOutcome files table dryRun root)) := by
  have hover : (workOn files table dryRun root trails (rounds trails.length)).IsOver :=
    isOver_workOn_rounds
  rw [performApply, translateTree,
    translateTreeBy_eq ⟨config.extensions, dryRun⟩ hfound hapart hover]
  exact ⟨_, rfl⟩

/-- A dry run that cannot find the documents is no different. -/
theorem performApply_of_error {error : WalkError} (records : List Record) (table : PhraseTable)
    (hfound : discover files root config.extensions = .error error) :
    performApply files records config table root true =
      performApply files records config table root false := by
  simp only [performApply, translateTree, translateTreeBy, hfound]
  rfl

/-- Runs that have the same to say about each document differ in the last line only. -/
theorem summarize_of_map_line_eq {phrases : Nat} {outcomes others : List Outcome}
    (h : outcomes.map (Outcome.line phrases) = others.map (Outcome.line phrases))
    (files now : FileSystem) (records made : List Record) (dryRun dryRun' : Bool) :
    (summarize files records phrases dryRun outcomes).code =
        (summarize now made phrases dryRun' others).code ∧
      (summarize files records phrases dryRun outcomes).errors =
        (summarize now made phrases dryRun' others).errors ∧
      ∃ lines,
        (summarize files records phrases dryRun outcomes).output =
          unlines (lines ++ [closingLine dryRun outcomes]) ∧
        (summarize now made phrases dryRun' others).output =
          unlines (lines ++ [closingLine dryRun' others]) := by
  rw [summarize, summarize, h]
  exact ⟨rfl, rfl, _, rfl, rfl⟩

/-- The documents that a run has written are those that read differently afterwards. -/
theorem countP_read_ne (hapart : files.Apart (trails.map (Path.joinAll root)))
    (hallowed : ∀ trail ∈ trails, ¬ files.IsRefused table false (Path.joinAll root trail))
    {schedule : List Nat} (hover : (workOn files table dryRun root trails schedule).IsOver) :
    (trails.countP fun trail =>
      (workOn files table dryRun root trails schedule).files.read (Path.joinAll root trail) ≠
        files.read (Path.joinAll root trail)) =
      (documentTexts files root trails).countP fun text => Rewrites table dryRun text := by
  have htrack := onTrack_workOn files table dryRun root trails schedule
  rw [documentTexts, List.countP_filterMap]
  refine List.countP_congr fun trail htrail => ?_
  obtain ⟨number, hnumber⟩ := List.mem_iff_getElem?.1 (List.mem_map_of_mem htrail)
  rw [htrack.read_eq_settledRead hover hnumber (hapart.undisturbed table dryRun number),
    decide_eq_true_eq, settledRead_ne_iff,
    isRewritten_iff fun hrefused => hallowed trail htrail hrefused.of_dryRun, NeedsRewrite]
  cases files.readText (Path.joinAll root trail) <;> simp [Except.toOption]

/-- What a dry run tells of the run that it stands for. -/
structure Foretells (files : FileSystem) (table : PhraseTable) (root : Text) (trails : List Trail)
    (dry real : Transcript) : Prop where
  /-- The dry run changes nothing. -/
  files_eq : dry.files = files
  /-- Both runs end with the same code. -/
  code_eq : dry.code = real.code
  /-- Both complain about the same. -/
  errors_eq : dry.errors = real.errors
  /-- Both print the same lines about documents and then the same numbers, but for the number of
  documents that are rewritten. A run counts those that read differently afterwards, and a dry run
  counts none. -/
  output_eq : ∃ lines,
    let texts := documentTexts files root trails
    let failed := trails.length - texts.length
    dry.output = unlines (lines ++
      [summaryLine trails.length (totalSubstitutions table texts) "would rewrite" 0 failed]) ∧
    real.output = unlines (lines ++
      [summaryLine trails.length (totalSubstitutions table texts) "rewrote"
        (trails.countP fun trail => real.files.read (Path.joinAll root trail) ≠
          files.read (Path.joinAll root trail)) failed])
  /-- The documents that read differently are those whose text the table changes. -/
  countP_read_ne_eq :
    (trails.countP fun trail => real.files.read (Path.joinAll root trail) ≠
      files.read (Path.joinAll root trail)) =
      (documentTexts files root trails).countP fun text => (table.translate text).text ≠ text

theorem foretells_performApply (files : FileSystem) (records : List Record) (config : Config)
    (table : PhraseTable) (root : Text)
    (hfound : discover files root config.extensions = .ok trails)
    (hapart : files.Apart (trails.map (Path.joinAll root)))
    (hallowed : ∀ trail ∈ trails, ¬ files.IsRefused table false (Path.joinAll root trail)) :
    Foretells files table root trails (performApply files records config table root true)
      (performApply files records config table root false) := by
  obtain ⟨_, hdry⟩ := performApply_eq files records config table root true hfound hapart
  obtain ⟨_, hreal⟩ := performApply_eq files records config table root false hfound hapart
  have hlines := map_line_settledOutcome true hallowed table.size
  obtain ⟨hcode, herrors, lines, hdryOutput, hrealOutput⟩ :=
    summarize_of_map_line_eq hlines
      (workOn files table true root trails (rounds trails.length)).files
      (workOn files table false root trails (rounds trails.length)).files _ _ true false
  have hnone :
      ((documentTexts files root trails).countP fun text => Rewrites table true text) = 0 :=
    List.countP_eq_zero.2 fun text _ => by simp [Rewrites]
  rw [hdry, hreal]
  have hover : (workOn files table false root trails (rounds trails.length)).IsOver :=
    isOver_workOn_rounds
  have hcount := countP_read_ne hapart hallowed hover
  refine ⟨(onTrack_workOn files table true root trails _).files_eq_of_dryRun, hcode, herrors,
    ⟨lines, ?_, ?_⟩, ?_⟩
  · rw [hdryOutput, closingLine_settled true hallowed, hnone]
    rfl
  · rw [hrealOutput, closingLine_settled false hallowed, ← hcount]
    rfl
  · exact hcount.trans (List.countP_congr fun text _ => by simp [Rewrites])

/-- **What a dry run tells of the run that it stands for**, if different documents are different
files, and those that the table changes can be written. Without a phrase table or documents, the two
runs are the same. -/
theorem perform_apply_of_dryRun (files : FileSystem) (records : List Record) (config : Config)
    (input : List UInt8) (root : Text) (table : Option ShippedTable)
    (hdistinct : DistinctDocuments files root config.extensions)
    (hwrites : ∀ active, activeTable config table = .ok active →
      WritesSucceed files active root config.extensions) :
    let dry := perform files records config input (.apply root true table)
    let real := perform files records config input (.apply root false table)
    match activeTable config table, discover files root config.extensions with
    | .ok active, .ok trails => Foretells files active root trails dry real
    | _, _ => dry = real := by
  intro dry real
  cases htable : activeTable config table with
  | error e => simp only [dry, real, perform, withActiveTable, htable]
  | ok active =>
    simp only [dry, real, perform, withActiveTable, htable]
    cases hfound : discover files root config.extensions with
    | error e => exact performApply_of_error _ active hfound
    | ok trails =>
      exact foretells_performApply files _ config active root hfound (hdistinct.apart hfound)
        (hwrites active htable trails hfound)

/-! ### Two pages

One of them has a text, which the phrase of the configuration changes.
-/

/-- A configuration whose phrases are those of `pagesTable`. -/
def pagesConfig : Config where
  usesShipped := false
  phrases := pagesTable.phrases

theorem activeTable_pagesConfig : activeTable pagesConfig none = .ok pagesTable := by
  have hlist : PhraseTable.ofList pagesTable.phrases = .ok pagesTable :=
    PhraseTable.ofList_eq_ok_of_pairwise (by decide) (by decide)
  exact hlist

/-- The pages can be written. -/
theorem writesSucceed_pages (table : PhraseTable) (root : Text) (extensions : List Text) :
    WritesSucceed pages table root extensions := by
  rintro trails - trail - ⟨-, location, hmem, -⟩
  cases hmem

theorem discover_pages_manual :
    discover pages ['d'] pagesConfig.extensions = .ok [[firstPage], [secondPage]] :=
  discover_pages rfl rfl

theorem foretells_pages :
    DistinctDocuments pages ['d'] pagesConfig.extensions ∧
      WritesSucceed pages pagesTable ['d'] pagesConfig.extensions ∧
      Foretells pages pagesTable ['d'] [[firstPage], [secondPage]]
        (perform pages [] pagesConfig [] (.apply ['d'] true none))
        (perform pages [] pagesConfig [] (.apply ['d'] false none)) := by
  have hdistinct := distinctDocuments_of_linkFree linkFree_pages ['d'] pagesConfig.extensions
  have hwrites := writesSucceed_pages pagesTable ['d'] pagesConfig.extensions
  have h := perform_apply_of_dryRun pages [] pagesConfig [] ['d'] none hdistinct
    fun active _ => writesSucceed_pages active ['d'] pagesConfig.extensions
  rw [activeTable_pagesConfig, discover_pages_manual] at h
  exact ⟨hdistinct, hwrites, h⟩

/-- **A dry run says that nothing would be rewritten**, where the run rewrites a page. -/
theorem dryRun_of_pages :
    DistinctDocuments pages ['d'] pagesConfig.extensions ∧
      WritesSucceed pages pagesTable ['d'] pagesConfig.extensions ∧
      ∃ lines,
        (perform pages [] pagesConfig [] (.apply ['d'] true none)).output =
          unlines (lines ++ [summaryLine 2 1 "would rewrite" 0 1]) ∧
        (perform pages [] pagesConfig [] (.apply ['d'] false none)).output =
          unlines (lines ++ [summaryLine 2 1 "rewrote" 1 1]) := by
  have hdistinct := distinctDocuments_of_linkFree linkFree_pages ['d'] pagesConfig.extensions
  have hapart := hdistinct.apart discover_pages_manual
  have htexts : documentTexts pages ['d'] [[firstPage], [secondPage]] = [['J', 'a']] := by decide
  have htotal : totalSubstitutions pagesTable [['J', 'a']] = 1 := by decide +kernel
  have hwrites := writesSucceed_pages pagesTable ['d'] pagesConfig.extensions
  refine ⟨hdistinct, hwrites, ?_⟩
  simp only [perform, withActiveTable, activeTable_pagesConfig]
  have hforetells := foretells_performApply pages
    ([] ++ [loaded (pagesConfig.withTable none) pagesTable]) pagesConfig pagesTable ['d']
    discover_pages_manual hapart (hwrites _ discover_pages_manual)
  obtain ⟨lines, hdry, hreal⟩ := hforetells.output_eq
  rw [hforetells.countP_read_ne_eq] at hreal
  simp only [htexts, htotal] at hdry hreal
  have hcount : ([['J', 'a']].countP fun text => (pagesTable.translate text).text ≠ text) = 1 := by
    decide +kernel
  rw [hcount] at hreal
  exact ⟨lines, hdry, hreal⟩

end Phrasebook
