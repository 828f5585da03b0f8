import Phrasebook.Proofs.AnySchedule
import Phrasebook.Proofs.Convergence
/-!
# Changes and substitutions

Whether a document is written is decided by comparing two texts, and what is reported of it is a
number of substitutions. The two agree. A pass uses up occurrences of the sources that are replaced,
one for each substitution, and makes no new ones; so a pass that gives back the text that it was
given has substituted nothing, however its substitutions might have made up for each other.

## Main definitions

* `Stage.IsAboutText`: what a stage has to report is about some text.

## Main results

* `PhraseTable.translate_text_eq_iff`: a text stays as it is exactly if nothing is substituted.
* `Work.forall_isAboutText_run`: each report is about some text, whatever the schedule.
* `PhraseTable.changes_iff_substitutes`: texts, and the reports of a run.
-/

namespace Phrasebook

/-! ### One text -/

/-- **A text stays as it is exactly if nothing is substituted.** The occurrences of the new text and
the substitutions are together no more than the occurrences of the given text. -/
theorem PhraseTable.translate_text_eq_iff {table : PhraseTable}
    (h : Phrase.Consistent table.phrases) {text : Text} :
    (table.translate text).text = text ↔ (table.translate text).substitutions = 0 := by
  refine ⟨fun hsame => ?_, translate_text_of_substitutions_eq_zero⟩
  have hpass := pending_translate_add_substitutions_le h text
  rw [hsame] at hpass
  omega

/-- The report on a text says that it was written exactly if something was substituted. -/
theorem PhraseTable.written_reportOn {table : PhraseTable} (h : Phrase.Consistent table.phrases)
    (text : Text) :
    (table.reportOn text).written = decide (0 < (table.reportOn text).substitutions) := by
  simp only [PhraseTable.reportOn, Rendition.report, ne_eq, translate_text_eq_iff h,
    Nat.pos_iff_ne_zero]

/-! ### The reports of a run -/

/-- What the stage has to report is about some text, and that is to be written only if the table
changes it. -/
def Stage.IsAboutText (table : PhraseTable) : Stage → Prop
  | .unread => True
  | .unwritten rendition => ∃ text, rendition = table.translate text ∧ rendition.text ≠ text
  | .finished result => ∀ report, result = .ok report → ∃ text, report = table.reportOn text

variable {table : PhraseTable}

theorem Stage.isAboutText_ofText (table : PhraseTable) (text : Text) :
    (Stage.ofText table false text).IsAboutText table := by
  rw [Stage.ofText_eq]
  split
  · rename_i hwrite
    exact ⟨text, rfl, hwrite.1⟩
  · rename_i hwrite
    rintro report ⟨⟩
    exact ⟨text, (PhraseTable.reportOn_of_fixed (not_rewrites_iff.1 hwrite)).symm⟩

/-- The next step of a document has to report about the text that it has read. -/
theorem Stage.IsAboutText.advance {path : Text} {now later : FileSystem} {stage next : Stage}
    (h : stage.IsAboutText table) (hnext : stage.advance table false path now = (later, next)) :
    next.IsAboutText table := by
  cases stage with
  | finished result =>
    cases hnext
    exact h
  | unread =>
    rw [Stage.advance] at hnext
    split at hnext
    · cases hnext
      rintro report ⟨⟩
    · obtain ⟨-, rfl⟩ := Prod.mk.inj hnext
      exact isAboutText_ofText table _
  | unwritten rendition =>
    obtain ⟨text, rfl, hne⟩ := h
    rw [Stage.advance] at hnext
    split at hnext
    · cases hnext
      rintro report ⟨⟩
    · cases hnext
      rintro report ⟨⟩
      exact ⟨text, by rw [PhraseTable.reportOn, decide_eq_true hne]⟩

namespace Work

variable {paths : List Text} {work : Work}

/-- **A step keeps all reports about texts.** -/
theorem forall_isAboutText_step (h : ∀ stage ∈ work.stages, stage.IsAboutText table)
    (number : Nat) :
    ∀ stage ∈ (work.step table false paths number).stages, stage.IsAboutText table := by
  rcases step_cases table false paths work number with
    ⟨heq, -⟩ | ⟨path, stage, later, next, -, hstage, -, hnext, heq⟩
  · rwa [heq]
  · rw [heq]
    intro other hother
    rcases List.mem_or_eq_of_mem_set hother with hmem | rfl
    · exact h other hmem
    · exact (h stage (List.mem_of_getElem? hstage)).advance hnext

/-- **So does a schedule.** -/
theorem forall_isAboutText_run (h : ∀ stage ∈ work.stages, stage.IsAboutText table)
    (schedule : List Nat) :
    ∀ stage ∈ (work.run table false paths schedule).stages, stage.IsAboutText table := by
  induction schedule generalizing work with
  | nil => exact h
  | cons number schedule ih => exact ih (forall_isAboutText_step h number)

end Work

/-- A result that is put to something has arrived. -/
theorem exists_mem_of_mem_collect {ι α β : Type} [DecidableEq ι] {waiting : List (ι × α)}
    {arrived : List (ι × β)} {owner : α} {result : β}
    (h : (owner, result) ∈ collect waiting arrived) : ∃ number, (number, result) ∈ arrived := by
  induction arrived generalizing waiting with
  | nil => cases h
  | cons first rest ih =>
    rw [collect] at h
    split at h
    · obtain ⟨number, hmem⟩ := ih h
      exact ⟨number, List.mem_cons_of_mem _ hmem⟩
    · rcases List.mem_cons.1 h with heq | hmem
      · cases heq
        exact ⟨first.1, List.mem_cons_self⟩
      · obtain ⟨number, hmem⟩ := ih hmem
        exact ⟨number, List.mem_cons_of_mem _ hmem⟩

/-- The result of an outcome is that of some document. -/
theorem exists_mem_of_mem_outcomes {root : Text} {trails : List Trail}
    {results : List (Nat × Except IoError Report)} {outcome : Outcome}
    (h : outcome ∈ outcomes root trails results) :
    ∃ number, (number, outcome.result) ∈ results := by
  rw [outcomes, inOrder, List.mem_mergeSort, List.mem_map] at h
  obtain ⟨⟨trail, result⟩, hmem, rfl⟩ := h
  exact exists_mem_of_mem_collect hmem

/-- **Each report of a run is about some text**, whatever the schedule. -/
theorem exists_eq_reportOn {schedule : Nat → List Nat} {files final : FileSystem} {root : Text}
    {extensions : List Text} {outcomes : List Outcome}
    (h : translateTreeBy schedule files table root { extensions } = .ok (outcomes, final))
    {outcome : Outcome} (hmem : outcome ∈ outcomes) {report : Report}
    (hreport : outcome.result = .ok report) : ∃ text, report = table.reportOn text := by
  obtain ⟨trails, -, rfl, -⟩ := exists_workOn_of_translateTreeBy h
  obtain ⟨number, hresult⟩ := exists_mem_of_mem_outcomes hmem
  rw [(recorded_workOn ..).mem_results_iff] at hresult
  have hbegin : ∀ stage ∈ (Work.begin files trails.length).stages, stage.IsAboutText table := by
    intro stage hstage
    rw [List.eq_of_mem_replicate hstage]
    exact trivial
  exact Work.forall_isAboutText_run hbegin _ _ (List.mem_of_getElem? hresult) report hreport

/-- **A document changes exactly if something is substituted in it.** For a validated table that is
so for every text; and in every run that is no dry run, whatever the schedule, a document on which
the work has succeeded is reported as written exactly if substitutions are reported. -/
theorem PhraseTable.changes_iff_substitutes {phrases : List (Phrase Char)} {table : PhraseTable}
    (h : PhraseTable.ofList phrases = .ok table) :
    (∀ text, (table.translate text).text = text ↔ (table.translate text).substitutions = 0) ∧
    ∀ (schedule : Nat → List Nat) (files : FileSystem) (root : Text) (extensions : List Text)
      (outcomes : List Outcome) (final : FileSystem),
      translateTreeBy schedule files table root { extensions } = .ok (outcomes, final) →
        ∀ outcome ∈ outcomes, ∀ report, outcome.result = .ok report →
          report.written = decide (0 < report.substitutions) := by
  have hcons := PhraseTable.consistent_of_ofList h
  refine ⟨fun text => PhraseTable.translate_text_eq_iff hcons, ?_⟩
  intro schedule files root extensions outcomes final hrun outcome hmem report hreport
  obtain ⟨text, rfl⟩ := exists_eq_reportOn hrun hmem hreport
  exact PhraseTable.written_reportOn hcons text

/-- The link is read after the page has been written. Of the page one substitution is reported and
that it was written, of the link neither. -/
theorem PhraseTable.changes_iff_substitutes_of_linked :
    PhraseTable.ofList pagesTable.phrases = .ok pagesTable ∧
      (pagesTable.translate ['J', 'a']).text ≠ ['J', 'a'] ∧
      (pagesTable.translate ['J', 'a']).substitutions ≠ 0 ∧
      ∃ outcomes final,
        translateTreeBy (fun _ => [0, 0, 1, 1]) (linked ['J', 'a']) pagesTable ['d'] {} =
          .ok (outcomes, final) ∧
        outcomes.map Outcome.result = [.ok ⟨1, 1, true⟩, .ok ⟨0, 0, false⟩] ∧
        ∀ outcome ∈ outcomes, ∀ report, outcome.result = .ok report →
          report.written = decide (0 < report.substitutions) := by
  obtain ⟨htext, hrun⟩ := PhraseTable.changes_iff_substitutes ofList_pagesTable
  have hchanged : (pagesTable.translate ['J', 'a']).text ≠ ['J', 'a'] := by decide +kernel
  obtain ⟨outcomes, houtcomes, hresults⟩ := translateTreeBy_linked ['J', 'a'] pagesTable
    (by decide : ∀ number < 2, 2 ≤ [0, 0, 1, 1].count number)
  refine ⟨ofList_pagesTable, hchanged, (htext _).not.1 hchanged, outcomes, _, houtcomes, ?_,
    hrun _ _ _ _ _ _ houtcomes⟩
  rw [hresults]
  decide +kernel

end Phrasebook
