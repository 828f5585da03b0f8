import Phrasebook.Proofs.FittingIdentities
import Phrasebook.Proofs.SideBySide
/-!
# Documents that share a file

Links can lead from two discovered paths to one file. Then one document may be read when the other
one has been written already, and both may be written. If a second pass over the text changes
nothing, that does no harm: the file holds the text or its translation at any time, and what is
written is always the translation. Only the reports tell who came first: a document that was read
late reports on the translation, in which there is nothing to substitute. If the file cannot be
written and its text changes, all documents that share it fail, and it keeps the text.

## Main definitions

* `PhraseTable.reportOn`: the report on a document with a text.
* `Stage.Shares`: a stage of a document whose file others may be translating too.
* `Work.Sharing`: the invariant of documents whose texts settle at once.

## Main results

* `Stage.Shares.advance`: the next step of such a document.
* `Work.Sharing.step`, `Work.Sharing.run`: the invariant is kept by each step and each schedule.
* `Work.Sharing.finals`, `Work.Sharing.exists_finals`: what the reports are about.
-/

namespace Phrasebook

open FileSystem

/-- The report on a document with this text, unless it is a dry run. -/
def PhraseTable.reportOn (table : PhraseTable) (text : Text) : Report :=
  (table.translate text).report (decide ((table.translate text).text ≠ text))

section

variable (table : PhraseTable) (text : Text) (path : Text) (now : FileSystem)

/-- The path reads the text, or its translation. -/
def FileSystem.ReadsEither : Prop :=
  now.read path = .ok (Utf8.encode text) ∨
    now.read path = .ok (Utf8.encode (table.translate text).text)

/-- The stage is one that the document at the path can come to if its file had the text at the
beginning, and other documents may be translating it too. -/
def Stage.Shares : Stage → Prop
  | .unread => now.ReadsEither table text path
  | .unwritten rendition =>
    now.ReadsEither table text path ∧ rendition = table.translate text ∧ rendition.text ≠ text
  | .finished result =>
    now.read path = .ok (Utf8.encode (table.translate text).text) ∧
      (result = .ok (table.reportOn text) ∨
        result = .ok (table.reportOn (table.translate text).text))

end

variable {files now later : FileSystem} {table : PhraseTable} {text path : Text}

theorem not_rewrites_iff : ¬ Rewrites table false text ↔ (table.translate text).text = text := by
  simp [Rewrites]

theorem settledResult_eq_reportOn (h : files.readText path = .ok text)
    (hallowed : ¬ files.IsRefused table false path) :
    settledResult files table false path = .ok (table.reportOn text) := by
  rw [settledResult_of_text h hallowed, PhraseTable.reportOn]
  simp only [Rewrites, and_true]

/-- The report on a text that a pass does not change. -/
theorem PhraseTable.reportOn_of_fixed (h : (table.translate text).text = text) :
    table.reportOn text = (table.translate text).report false := by
  rw [reportOn, decide_eq_false (not_not_intro h)]

/-- On the translation of a text that settles at once there is nothing to report but phrases that
stay as they are. -/
theorem PhraseTable.SettlesAtOnce.reportOn_eq (h : table.SettlesAtOnce text) :
    table.reportOn (table.translate text).text =
      { substitutions := 0
        phrasesFound := (table.translate (table.translate text).text).phrasesFound
        written := false } := by
  rw [PhraseTable.reportOn_of_fixed h.1, Rendition.report, h.2]

theorem Stage.Shares.congr {stage : Stage} (h : stage.Shares table text path now)
    (hread : later.read path = now.read path) : stage.Shares table text path later := by
  cases stage with
  | unread => simpa only [Shares, ReadsEither, hread] using h
  | unwritten rendition => simpa only [Shares, ReadsEither, hread] using h
  | finished result => exact ⟨hread.trans h.1, h.2⟩

/-- It does a document no harm if its file gets the translation. -/
theorem Stage.Shares.of_translated {stage : Stage} (h : stage.Shares table text path now)
    (hread : later.read path = .ok (Utf8.encode (table.translate text).text)) :
    stage.Shares table text path later := by
  cases stage with
  | unread => exact .inr hread
  | unwritten rendition => exact ⟨.inr hread, h.2⟩
  | finished result => exact ⟨hread, h.2⟩

theorem Stage.Shares.read_eq {stage : Stage} (h : stage.Shares table text path now)
    (hover : stage.result?.isSome) :
    now.read path = .ok (Utf8.encode (table.translate text).text) := by
  cases stage with
  | unread => cases hover
  | unwritten rendition => cases hover
  | finished result => exact h.1

/-- **The next step of a document whose file others may be translating too.** It is not refused: a
document that cannot be written has a text that a pass does not change. -/
theorem Stage.Shares.advance (hset : table.SettlesAtOnce text)
    (hallowed : (table.translate text).text ≠ text → ¬ now.IsReadOnly path) {stage next : Stage}
    (h : stage.Shares table text path now)
    (hmove : stage.Advances table false path now later next) :
    next.Shares table text path later := by
  cases hmove with
  | fails hread =>
    -- the path reads a text in either case
    rcases h with hread' | hread' <;> cases hread.symm.trans (readText_eq_ok_iff.2 hread')
  | reads hread =>
    rw [Stage.ofText_eq]
    rcases h with hread' | hread'
    · cases hread.symm.trans (readText_eq_ok_iff.2 hread')
      by_cases hwrite : Rewrites table false text
      · rw [if_pos hwrite]
        exact ⟨.inl hread', rfl, hwrite.1⟩
      · rw [if_neg hwrite]
        rw [not_rewrites_iff] at hwrite
        refine ⟨?_, .inl ?_⟩
        · rwa [hwrite]
        · rw [PhraseTable.reportOn_of_fixed hwrite]
    · cases hread.symm.trans (readText_eq_ok_iff.2 hread')
      rw [if_neg (not_rewrites_iff.2 hset.1)]
      exact ⟨hread', .inr (by rw [PhraseTable.reportOn_of_fixed hset.1])⟩
  | refused hrefused =>
    obtain ⟨-, rfl, hne⟩ := h
    exact absurd hrefused (hallowed hne)
  | writes hwritable hat hold =>
    obtain ⟨-, rfl, hne⟩ := h
    refine ⟨?_, .inl ?_⟩
    · rw [read_set hold, if_pos hat]
    · rw [PhraseTable.reportOn, decide_eq_true hne]

namespace Work

variable {paths : List Text} {work : Work}

/-- Documents whose texts settle at once share their files well, `files` being the file system at
the beginning. Those that cannot be rewritten as they should keep out of it. -/
structure Sharing (files : FileSystem) (table : PhraseTable) (paths : List Text) (work : Work) :
    Prop extends work.Confined files table false paths where
  /-- Each of these documents is at a stage that it can come to. -/
  shares : ∀ (number : Nat) (path : Text) (stage : Stage), paths[number]? = some path →
    work.stages[number]? = some stage → ∀ text, files.readText path = .ok text →
      ¬ files.IsRefused table false path → table.SettlesAtOnce text →
        stage.Shares table text path work.files
  /-- If the file of such a document has changed, a document with that file reports on its text. -/
  reported : ∀ (path text : Text), files.readText path = .ok text → table.SettlesAtOnce text →
    work.files.read path = files.read path ∨
      ∃ (number : Nat) (other : Text), paths[number]? = some other ∧
        files.fileAt? other = files.fileAt? path ∧
          work.stages[number]? = some (.finished (.ok (table.reportOn text)))

theorem sharing_begin (files : FileSystem) (table : PhraseTable) (paths : List Text) :
    (begin files paths.length).Sharing files table paths := by
  refine ⟨confined_begin files table false paths, ?_, fun _ _ _ _ => .inl rfl⟩
  intro number path stage _ hstage text htext _ _
  rw [stage_begin hstage]
  exact .inl (readText_eq_ok_iff.1 htext)

/-- What a path reads after a step: what it has read before, or the translation, which the document
that has taken the step reports on. -/
theorem Sharing.read_advance (h : work.Sharing files table paths) {number : Nat}
    {stage next : Stage} (hpath : paths[number]? = some path)
    (hstage : work.stages[number]? = some stage)
    (hmove : stage.Advances table false path work.files later next) {other : Text}
    (htext : files.readText other = .ok text) (hset : table.SettlesAtOnce text) :
    later.read other = work.files.read other ∨
      later.read other = .ok (Utf8.encode (table.translate text).text) ∧
        files.fileAt? path = files.fileAt? other ∧
          next = .finished (.ok (table.reportOn text)) := by
  cases hmove with
  | fails hread => exact .inl rfl
  | reads hread => exact .inl rfl
  | refused hrefused => exact .inl rfl
  | @writes rendition location old hwritable hat hold =>
    rw [h.fileAt?_eq] at hat
    rw [read_set hold, h.fileAt?_eq]
    by_cases hsame : files.fileAt? other = some location
    · -- the two documents have had the same text
      obtain ⟨l, hl, hget⟩ := read_eq_ok_iff.1 (readText_eq_ok_iff.1 htext)
      cases hsame.symm.trans hl
      have htext' : files.readText path = .ok text :=
        readText_eq_ok_iff.2 (read_eq_ok_iff.2 ⟨location, hat, hget⟩)
      have hallowed : ¬ files.IsRefused table false path := fun hrefused =>
        hwritable ((h.isReadOnly_iff path).2 hrefused.2)
      obtain ⟨-, rfl, hne⟩ := h.shares number path _ hpath hstage text htext' hallowed hset
      refine .inr ⟨if_pos hsame, hat.trans hsame.symm, ?_⟩
      rw [PhraseTable.reportOn, decide_eq_true hne]
    · exact .inl (if_neg hsame)

/-- **A step of one document does the others no harm.** -/
theorem Sharing.step (h : work.Sharing files table paths) (number : Nat) :
    (work.step table false paths number).Sharing files table paths := by
  refine ⟨h.toConfined.step number, ?_, ?_⟩ <;>
    rcases h.toConfined.step_cases number with
      heq | ⟨path, stage, later, next, hpath, hstage, hmove, heq⟩ <;>
    rw [heq]
  · exact h.shares
  · refine forall_stages_set hpath hstage ?_ ?_
    · intro text htext hallowed hset
      have hshares := h.shares number path stage hpath hstage text htext hallowed hset
      refine hshares.advance hset (fun hne hreadOnly => hallowed ?_) hmove
      exact (isRefused_iff htext).2 ⟨⟨hne, rfl⟩, (h.isReadOnly_iff path).1 hreadOnly⟩
    intro i p s _ hp hs text htext hallowed hset
    have hshares := h.shares i p s hp hs text htext hallowed hset
    rcases h.read_advance hpath hstage hmove htext hset with hkept | ⟨hread, -, -⟩
    · exact hshares.congr hkept
    · exact hshares.of_translated hread
  · exact h.reported
  · intro p text htext hset
    rcases h.read_advance hpath hstage hmove htext hset with hkept | ⟨-, hfile, rfl⟩
    · refine (h.reported p text htext hset).imp hkept.trans ?_
      rintro ⟨i, other, hother, hfile, hfinished⟩
      refine ⟨i, other, hother, hfile, ?_⟩
      have hne : number ≠ i := by
        rintro rfl
        cases hstage.symm.trans hfinished
        cases hmove
      rwa [List.getElem?_set_ne hne]
    · refine .inr ⟨number, path, hpath, hfile, ?_⟩
      exact List.getElem?_set_self (List.getElem?_eq_some_iff.1 hstage).1

/-- **Nor do the steps of a schedule.** -/
theorem Sharing.run (h : work.Sharing files table paths) (schedule : List Nat) :
    (work.run table false paths schedule).Sharing files table paths := by
  induction schedule generalizing work with
  | nil => exact h
  | cons number schedule ih => exact ih (h.step number)

/-! ### The end of the work -/

section

variable {number : Nat} (hpath : paths[number]? = some path)
  (htext : files.readText path = .ok text) (hallowed : ¬ files.IsRefused table false path)
  (hset : table.SettlesAtOnce text)

include hpath htext hallowed hset

/-- When the work is over, a document whose text settles at once reads its translation. -/
theorem Sharing.read_eq_translated (h : work.Sharing files table paths) (hover : work.IsOver) :
    work.files.read path = .ok (Utf8.encode (table.translate text).text) := by
  have hlt : number < work.stages.length :=
    h.length_stages ▸ (List.getElem?_eq_some_iff.1 hpath).1
  exact (h.shares number path _ hpath (List.getElem?_eq_getElem hlt) text htext hallowed
    hset).read_eq (hover _ (List.getElem_mem hlt))

/-- It reports on its text, or on the translation. -/
theorem Sharing.finals (h : work.Sharing files table paths) (hover : work.IsOver)
    {result : Except IoError Report} (hresult : work.finals[number]? = some result) :
    result = .ok (table.reportOn text) ∨
      result = .ok (table.reportOn (table.translate text).text) :=
  (h.shares number path _ hpath (hover.finals_eq_some_iff.1 hresult) text htext hallowed hset).2

/-- One of the documents with its file reports on the text. -/
theorem Sharing.exists_finals (h : work.Sharing files table paths) (hover : work.IsOver) :
    ∃ (i : Nat) (other : Text), paths[i]? = some other ∧
      files.fileAt? other = files.fileAt? path ∧
        work.finals[i]? = some (.ok (table.reportOn text)) := by
  rcases h.reported path text htext hset with hkept | ⟨i, other, hother, hfile, hfinished⟩
  · -- the translation is the text, and so all reports are about it
    have hlt : number < work.finals.length := by
      rw [hover.length_finals, h.length_stages]
      exact (List.getElem?_eq_some_iff.1 hpath).1
    have hfinal := List.getElem?_eq_getElem hlt
    have hread := h.read_eq_translated hpath htext hallowed hset hover
    rw [hkept, readText_eq_ok_iff.1 htext, Except.ok.injEq] at hread
    have hsame := Utf8.encode_injective hread
    refine ⟨number, path, hpath, rfl, hfinal.trans (congrArg some ?_)⟩
    have hresult := h.finals hpath htext hallowed hset hover hfinal
    rwa [← hsame, or_self] at hresult
  · exact ⟨i, other, hother, hfile, hover.finals_eq_some_iff.2 hfinished⟩

end

end Work

end Phrasebook
