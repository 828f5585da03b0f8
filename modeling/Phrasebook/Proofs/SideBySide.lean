import Phrasebook.Proofs.LastingDiscovery
import Phrasebook.Proofs.Octets
import Phrasebook.Proofs.WorkSteps
/-!
# Documents that are worked on side by side

Documents are worked on side by side, and a schedule decides whose step comes next. Whatever the
schedule, nothing is written but the files of documents that have to be rewritten and can be. So the
work on a document comes to what it would come to alone, as long as no other document is rewritten
in the same file: and that is so for all of them if they are different files, or if nothing is
rewritten.

## Main definitions

* `FileSystem.NeedsRewrite`: a document has to be rewritten. It `IsRewritten` unless its file is
  read-only, and then it `IsRefused`.
* `FileSystem.FailsFor`: the work on a document fails for a cause.
* `settledResult`, `settledRead`: what the work on a document comes to alone, and what its path
  reads then.
* `Stage.Follows`: a stage of a document is one that the document comes to alone.
* `Stage.Advances`: what a step of a document can do.
* `FileSystem.Undisturbed`: no other document is rewritten in the file of a document.
* `Stage.IsWarranted`: nothing is written or fails without reason.
* `Work.Confined`: the invariant of the file system.
* `Work.OnTrack`: the invariant of undisturbed documents.

## Main results

* `Work.Confined.step_cases`: all that a step can do to the file system.
* `Work.Confined.step`: only documents that have to be rewritten are written.
* `Work.OnTrack.step`, `Work.OnTrack.run`: undisturbed documents follow their own course.
* `Work.OnTrack.finals_eq`: what they come to.
* `Work.OnTrack.result_eq_error_iff`: which documents fail, undisturbed or not.
-/

namespace Phrasebook

open FileSystem

/-! ### Documents that have to be rewritten -/

section

variable (files : FileSystem) (table : PhraseTable) (dryRun : Bool) (path : Text)

/-- The document at a path has to be rewritten. -/
def FileSystem.NeedsRewrite : Prop :=
  ∃ text, files.readText path = .ok text ∧ Rewrites table dryRun text

/-- The document at a path has to be rewritten, and it can be. -/
def FileSystem.IsRewritten : Prop :=
  files.NeedsRewrite table dryRun path ∧ ¬ files.IsReadOnly path

/-- The document at a path has to be rewritten, but its file cannot be written. -/
def FileSystem.IsRefused : Prop :=
  files.NeedsRewrite table dryRun path ∧ files.IsReadOnly path

/-- The work on the document at a path fails for this cause: it cannot be read, or it is refused. -/
def FileSystem.FailsFor (cause : IoError) : Prop :=
  files.readText path = .error cause ∨
    cause = .permissionDenied ∧ files.IsRefused table dryRun path

end

variable {files : FileSystem} {table : PhraseTable} {dryRun : Bool} {path : Text} {text : Text}

theorem FileSystem.needsRewrite_iff (h : files.readText path = .ok text) :
    files.NeedsRewrite table dryRun path ↔ Rewrites table dryRun text := by
  simp [NeedsRewrite, h]

theorem FileSystem.not_needsRewrite_of_error {cause : IoError}
    (h : files.readText path = .error cause) : ¬ files.NeedsRewrite table dryRun path := by
  simp [NeedsRewrite, h]

theorem FileSystem.isRefused_iff (h : files.readText path = .ok text) :
    files.IsRefused table dryRun path ↔ Rewrites table dryRun text ∧ files.IsReadOnly path := by
  rw [IsRefused, needsRewrite_iff h]

theorem FileSystem.NeedsRewrite.exists_fileAt? (h : files.NeedsRewrite table dryRun path) :
    ∃ location, files.fileAt? path = some location := by
  obtain ⟨text, htext, -⟩ := h
  obtain ⟨location, hat, -⟩ := read_eq_ok_iff.1 (readText_eq_ok_iff.1 htext)
  exact ⟨location, hat⟩

theorem FileSystem.NeedsRewrite.of_fileAt?_eq {p q : Text}
    (h : files.NeedsRewrite table dryRun p) {location : Location}
    (hp : files.fileAt? p = some location) (hq : files.fileAt? q = some location) :
    files.NeedsRewrite table dryRun q := by
  obtain ⟨text, htext, hwrite⟩ := h
  have hget := get?_of_read hp (readText_eq_ok_iff.1 htext)
  exact ⟨text, readText_eq_ok_iff.2 (read_eq_ok_iff.2 ⟨location, hq, hget⟩), hwrite⟩

theorem FileSystem.IsRewritten.of_fileAt?_eq {p q : Text}
    (h : files.IsRewritten table dryRun p) {location : Location}
    (hp : files.fileAt? p = some location) (hq : files.fileAt? q = some location) :
    files.IsRewritten table dryRun q :=
  ⟨h.1.of_fileAt?_eq hp hq, (isReadOnly_congr (hp.trans hq.symm) rfl).not.1 h.2⟩

/-- Whether a document is refused depends on its octets, and on whether it is read-only. -/
theorem FileSystem.isRefused_congr {now : FileSystem} (hread : now.read path = files.read path)
    (hreadOnly : now.IsReadOnly path ↔ files.IsReadOnly path) :
    now.IsRefused table dryRun path ↔ files.IsRefused table dryRun path := by
  rw [IsRefused, IsRefused, NeedsRewrite, NeedsRewrite, readText_congr hread, hreadOnly]

/-- A dry run is refused nothing that the run would not be refused. -/
theorem FileSystem.IsRefused.of_dryRun (h : files.IsRefused table dryRun path) :
    files.IsRefused table false path := by
  obtain ⟨⟨text, htext, hwrite⟩, hreadOnly⟩ := h
  exact ⟨⟨text, htext, hwrite.1, rfl⟩, hreadOnly⟩

theorem FileSystem.isRewritten_iff (h : ¬ files.IsRefused table dryRun path) :
    files.IsRewritten table dryRun path ↔ files.NeedsRewrite table dryRun path :=
  ⟨And.left, fun hneeded => ⟨hneeded, fun hreadOnly => h ⟨hneeded, hreadOnly⟩⟩⟩

/-- A document on which the work fails is not rewritten. -/
theorem FileSystem.FailsFor.not_isRewritten {cause : IoError}
    (h : files.FailsFor table dryRun path cause) : ¬ files.IsRewritten table dryRun path := by
  rcases h with hread | ⟨-, hrefused⟩
  · exact fun hrewritten => not_needsRewrite_of_error hread hrewritten.1
  · exact fun hrewritten => hrewritten.2 hrefused.2

/-- A text that is not to be written is what it would be replaced by. -/
theorem eq_of_not_rewrites (h : ¬ Rewrites table dryRun text) :
    (if dryRun then text else (table.translate text).text) = text := by
  cases dryRun with
  | true => rfl
  | false => simpa [Rewrites] using h

/-! ### The work on one document -/

section

variable (files : FileSystem) (table : PhraseTable) (dryRun : Bool) (path : Text)

/-- What the work on the document at a path comes to if nothing else changes its file. -/
def settledResult : Except IoError Report := do
  let text ← files.readText path
  if Rewrites table dryRun text ∧ files.IsReadOnly path then .error .permissionDenied
  else .ok ((table.translate text).report (decide (Rewrites table dryRun text)))

/-- What the path reads when that work is over. -/
def settledRead : Except IoError (List UInt8) :=
  match files.readText path with
  | .error _ => files.read path
  | .ok text =>
    if Rewrites table dryRun text ∧ ¬ files.IsReadOnly path then
      .ok (Utf8.encode (table.translate text).text)
    else files.read path

/-- The stage is one that the document at the path comes to alone, with `files` at the beginning and
`now` at present. -/
def Stage.Follows (now : FileSystem) : Stage → Prop
  | .unread => now.read path = files.read path
  | .unwritten rendition =>
    now.read path = files.read path ∧
      ∃ text, files.readText path = .ok text ∧ rendition = table.translate text ∧
        Rewrites table dryRun text
  | .finished result =>
    now.read path = settledRead files table dryRun path ∧
      result = settledResult files table dryRun path

end

theorem settledResult_of_text (h : files.readText path = .ok text)
    (hallowed : ¬ files.IsRefused table dryRun path) :
    settledResult files table dryRun path =
      .ok ((table.translate text).report (decide (Rewrites table dryRun text))) := by
  rw [settledResult, h]
  exact if_neg ((isRefused_iff h).not.1 hallowed)

theorem settledResult_of_failsFor {cause : IoError} (h : files.FailsFor table dryRun path cause) :
    settledResult files table dryRun path = .error cause := by
  rcases h with hread | ⟨rfl, hrefused⟩
  · rw [settledResult, hread]
    rfl
  · obtain ⟨text, htext, -⟩ := hrefused.1
    rw [settledResult, htext]
    exact if_pos ((isRefused_iff htext).1 hrefused)

theorem settledResult_of_error {cause : IoError} (h : files.readText path = .error cause) :
    settledResult files table dryRun path = .error cause :=
  settledResult_of_failsFor (.inl h)

theorem settledRead_of_rewrites (h : files.readText path = .ok text)
    (hwrite : Rewrites table dryRun text) (hallowed : ¬ files.IsReadOnly path) :
    settledRead files table dryRun path = .ok (Utf8.encode (table.translate text).text) := by
  simp only [settledRead, h]
  exact if_pos ⟨hwrite, hallowed⟩

/-- A document that is not rewritten reads as before. -/
theorem settledRead_of_not_isRewritten (h : ¬ files.IsRewritten table dryRun path) :
    settledRead files table dryRun path = files.read path := by
  cases htext : files.readText path with
  | error cause => simp only [settledRead, htext]
  | ok text =>
    rw [IsRewritten, needsRewrite_iff htext] at h
    simp only [settledRead, htext]
    exact if_neg h

theorem settledRead_of_text (h : files.readText path = .ok text)
    (hallowed : ¬ files.IsRefused table dryRun path) :
    settledRead files table dryRun path =
      .ok (Utf8.encode (if dryRun then text else (table.translate text).text)) := by
  by_cases hwrite : Rewrites table dryRun text
  · have hwritable : ¬ files.IsReadOnly path := fun hrefused =>
      hallowed ((isRefused_iff h).2 ⟨hwrite, hrefused⟩)
    rw [settledRead_of_rewrites h hwrite hwritable, hwrite.2, if_neg Bool.false_ne_true]
  · have hkept : ¬ files.IsRewritten table dryRun path := fun hrewritten =>
      hwrite ((needsRewrite_iff h).1 hrewritten.1)
    rw [settledRead_of_not_isRewritten hkept, eq_of_not_rewrites hwrite]
    exact readText_eq_ok_iff.1 h

/-- The work on a document changes what its path reads exactly if the document is rewritten. -/
theorem settledRead_ne_iff :
    settledRead files table dryRun path ≠ files.read path ↔
      files.IsRewritten table dryRun path := by
  refine ⟨not_imp_comm.1 settledRead_of_not_isRewritten, ?_⟩
  rintro ⟨⟨text, htext, hwrite⟩, hwritable⟩
  rw [settledRead_of_rewrites htext hwrite hwritable, readText_eq_ok_iff.1 htext]
  exact fun heq => hwrite.1 (Utf8.encode_injective (Except.ok.inj heq))

theorem Stage.Follows.congr {now later : FileSystem} {stage : Stage}
    (h : stage.Follows files table dryRun path now) (hread : later.read path = now.read path) :
    stage.Follows files table dryRun path later := by
  cases stage with
  | unread => exact hread.trans h
  | unwritten rendition => exact ⟨hread.trans h.1, h.2⟩
  | finished result => exact ⟨hread.trans h.1, h.2⟩

theorem Stage.Follows.read_eq {now : FileSystem} {stage : Stage}
    (h : stage.Follows files table dryRun path now) (hover : stage.result?.isSome) :
    now.read path = settledRead files table dryRun path := by
  cases stage with
  | unread => cases hover
  | unwritten rendition => cases hover
  | finished final => exact h.1

/-- What a step of the document at a path can do in the file system `now`: it cannot read the
document, it reads it, it cannot write it, or it writes it. -/
inductive Stage.Advances (table : PhraseTable) (dryRun : Bool) (path : Text) (now : FileSystem) :
    Stage → FileSystem → Stage → Prop
  | fails {cause : IoError} (hread : now.readText path = .error cause) :
    Advances table dryRun path now .unread now (.finished (.error cause))
  | reads {text : Text} (hread : now.readText path = .ok text) :
    Advances table dryRun path now .unread now (.ofText table dryRun text)
  | refused {rendition : Rendition Char} (hrefused : now.IsReadOnly path) :
    Advances table dryRun path now (.unwritten rendition) now
      (.finished (.error .permissionDenied))
  | writes {rendition : Rendition Char} {location : Location} {old : List UInt8}
    (hwritable : ¬ now.IsReadOnly path) (hat : now.fileAt? path = some location)
    (hold : now.get? location = some (.file old)) :
    Advances table dryRun path now (.unwritten rendition)
      (now.set location (.file (Utf8.encode rendition.text)))
      (.finished (.ok (rendition.report true)))

/-- A step does nothing else, if a document that is to be written has a file. -/
theorem Stage.advances_of_advance {now later : FileSystem} {stage next : Stage}
    (hfile : ∀ rendition, stage = .unwritten rendition →
      ∃ location, now.fileAt? path = some location)
    (hopen : stage.result? = none) (hnext : stage.advance table dryRun path now = (later, next)) :
    stage.Advances table dryRun path now later next := by
  cases stage with
  | finished result => cases hopen
  | unread =>
    rw [Stage.advance] at hnext
    cases hread : now.readText path with
    | error cause =>
      rw [hread] at hnext
      cases hnext
      exact .fails hread
    | ok text =>
      rw [hread] at hnext
      obtain ⟨rfl, rfl⟩ := Prod.mk.inj hnext
      exact .reads hread
  | unwritten rendition =>
    obtain ⟨location, hat⟩ := hfile rendition rfl
    obtain ⟨old, hold⟩ := exists_get?_of_fileAt? hat
    rw [Stage.advance, write_of_fileAt? hat] at hnext
    by_cases hwritable : now.IsReadOnly path
    · rw [if_pos hwritable] at hnext
      cases hnext
      exact .refused hwritable
    · rw [if_neg hwritable] at hnext
      cases hnext
      exact .writes hwritable hat hold

/-- The next step of a document keeps it on its course. -/
theorem Stage.Follows.advance {now later : FileSystem} {stage next : Stage}
    (h : stage.Follows files table dryRun path now)
    (hreadOnly : now.IsReadOnly path ↔ files.IsReadOnly path)
    (hmove : stage.Advances table dryRun path now later next) :
    next.Follows files table dryRun path later := by
  cases hmove with
  | fails hread =>
    have hsame : now.read path = files.read path := h
    rw [readText_congr hsame] at hread
    have hfails : files.FailsFor table dryRun path _ := .inl hread
    exact ⟨hsame.trans (settledRead_of_not_isRewritten hfails.not_isRewritten).symm,
      (settledResult_of_failsFor hfails).symm⟩
  | @reads text hread =>
    have hsame : now.read path = files.read path := h
    rw [readText_congr hsame] at hread
    rw [Stage.ofText_eq]
    by_cases hwrite : Rewrites table dryRun text
    · rw [if_pos hwrite]
      exact ⟨hsame, text, hread, rfl, hwrite⟩
    · have hneeded : ¬ files.NeedsRewrite table dryRun path := (needsRewrite_iff hread).not.2 hwrite
      rw [if_neg hwrite]
      refine ⟨hsame.trans (settledRead_of_not_isRewritten fun hrewritten => ?_).symm, ?_⟩
      · exact hneeded hrewritten.1
      · rw [settledResult_of_text hread fun hrefused => hneeded hrefused.1, decide_eq_false hwrite]
  | refused hrefused =>
    obtain ⟨hsame, text, htext, -, hwrite⟩ := h
    have hfails : files.FailsFor table dryRun path .permissionDenied :=
      .inr ⟨rfl, ⟨text, htext, hwrite⟩, hreadOnly.1 hrefused⟩
    exact ⟨hsame.trans (settledRead_of_not_isRewritten hfails.not_isRewritten).symm,
      (settledResult_of_failsFor hfails).symm⟩
  | writes hwritable hat hold =>
    obtain ⟨hsame, text, htext, rfl, hwrite⟩ := h
    rw [hreadOnly] at hwritable
    refine ⟨?_, ?_⟩
    · rw [read_set hold, if_pos hat, settledRead_of_rewrites htext hwrite hwritable]
    · rw [settledResult_of_text htext fun hrefused => hwritable hrefused.2, decide_eq_true hwrite]

/-! ### The work on all documents -/

/-- No two of the paths lead to the same file. -/
def FileSystem.Apart (files : FileSystem) (paths : List Text) : Prop :=
  paths.Pairwise fun p q => ∀ location, files.fileAt? p = some location →
    files.fileAt? q ≠ some location

/-- A document is about to be written only if it has to be rewritten, and it has failed only for a
cause for which it fails alone. -/
def Stage.IsWarranted (files : FileSystem) (table : PhraseTable) (dryRun : Bool) (path : Text) :
    Stage → Prop
  | .unread => True
  | .unwritten _ => files.NeedsRewrite table dryRun path
  | .finished result => ∀ cause, result = .error cause → files.FailsFor table dryRun path cause

/-- No other document is rewritten in the file of the document with a number. -/
def FileSystem.Undisturbed (files : FileSystem) (table : PhraseTable) (dryRun : Bool)
    (paths : List Text) (number : Nat) : Prop :=
  ∀ i p q, paths[number]? = some p → paths[i]? = some q → i ≠ number →
    files.IsRewritten table dryRun q → ∀ location, files.fileAt? p = some location →
      files.fileAt? q ≠ some location

/-- A document that is not rewritten shares its file with none that is. -/
theorem FileSystem.undisturbed_of_not_isRewritten {paths : List Text} {number : Nat}
    (hpath : paths[number]? = some path) (h : ¬ files.IsRewritten table dryRun path) :
    files.Undisturbed table dryRun paths number := by
  intro i p q hp _ _ hq location hatp hatq
  cases hpath.symm.trans hp
  exact h (hq.of_fileAt?_eq hatq hatp)

theorem FileSystem.Apart.undisturbed {paths : List Text} (h : files.Apart paths)
    (table : PhraseTable) (dryRun : Bool) (number : Nat) :
    files.Undisturbed table dryRun paths number := by
  intro i p q hp hq hne _ location hatp hatq
  obtain ⟨hnumber, rfl⟩ := List.getElem?_eq_some_iff.1 hp
  obtain ⟨hi, rfl⟩ := List.getElem?_eq_some_iff.1 hq
  have hpairwise := List.pairwise_iff_getElem.1 h
  rcases Nat.lt_or_gt_of_ne hne with hlt | hgt
  · exact hpairwise i number hi hnumber hlt location hatq hatp
  · exact hpairwise number i hnumber hi hgt location hatp hatq

namespace Work

variable {paths : List Text} {work : Work}

/-- Only the files of documents that are rewritten change, `files` being the file system at the
beginning. -/
structure Confined (files : FileSystem) (table : PhraseTable) (dryRun : Bool) (paths : List Text)
    (work : Work) : Prop where
  /-- There is a stage for each document. -/
  length_stages : work.stages.length = paths.length
  /-- No document is written or fails for another reason than what it was at the beginning. -/
  warranted : ∀ (number : Nat) (path : Text) (stage : Stage), paths[number]? = some path →
    work.stages[number]? = some stage → stage.IsWarranted files table dryRun path
  /-- Every path leads to the file that it led to. -/
  fileAt?_eq : ∀ path, work.files.fileAt? path = files.fileAt? path
  /-- The same locations are read-only. -/
  readOnly_eq : work.files.readOnly = files.readOnly
  /-- A path reads what it read, unless the document there is rewritten. -/
  read_eq : ∀ path, ¬ files.IsRewritten table dryRun path →
    work.files.read path = files.read path
  /-- A path that read a text still reads one. -/
  readable : ∀ path text, files.readText path = .ok text →
    ∃ text', work.files.readText path = .ok text'
  /-- What is no document that is rewritten is as it was. -/
  get?_eq : ∀ location, (∀ path ∈ paths, files.IsRewritten table dryRun path →
    files.fileAt? path ≠ some location) → work.files.get? location = files.get? location
  /-- If no document is rewritten, everything is as it was. -/
  files_eq : (∀ path ∈ paths, ¬ files.IsRewritten table dryRun path) → work.files = files
  /-- The same documents are discovered. -/
  discover_eq : ∀ root extensions,
    discover work.files root extensions = discover files root extensions

theorem confined_begin (files : FileSystem) (table : PhraseTable) (dryRun : Bool)
    (paths : List Text) : (begin files paths.length).Confined files table dryRun paths := by
  refine ⟨List.length_replicate, ?_, fun _ => rfl, rfl, fun _ _ => rfl,
    fun _ text htext => ⟨text, htext⟩, fun _ _ => rfl, fun _ => rfl, fun _ _ => rfl⟩
  intro number path stage _ hstage
  rw [stage_begin hstage]
  exact trivial

theorem Confined.isReadOnly_iff (h : work.Confined files table dryRun paths) (path : Text) :
    work.files.IsReadOnly path ↔ files.IsReadOnly path :=
  isReadOnly_congr (h.fileAt?_eq path) h.readOnly_eq

/-- **All that a step of a document can do.** -/
theorem Confined.step_cases (h : work.Confined files table dryRun paths) (number : Nat) :
    work.step table dryRun paths number = work ∨
    ∃ path stage later next, paths[number]? = some path ∧ work.stages[number]? = some stage ∧
      stage.Advances table dryRun path work.files later next ∧
        work.step table dryRun paths number =
          ⟨later, work.stages.set number next,
            work.results ++ (next.result?.map (number, ·)).toList⟩ := by
  rcases Work.step_cases table dryRun paths work number with
    ⟨heq, -⟩ | ⟨path, stage, later, next, hpath, hstage, hopen, hnext, heq⟩
  · exact .inl heq
  refine .inr ⟨path, stage, later, next, hpath, hstage, ?_, heq⟩
  refine Stage.advances_of_advance ?_ hopen hnext
  rintro rendition rfl
  have hneeded : files.NeedsRewrite table dryRun path := h.warranted number path _ hpath hstage
  rw [h.fileAt?_eq]
  exact hneeded.exists_fileAt?

/-- After a step of a document its new stage is warranted. -/
theorem Confined.isWarranted (h : work.Confined files table dryRun paths) {path : Text}
    {stage next : Stage} {later : FileSystem} (hstage : stage.IsWarranted files table dryRun path)
    (hmove : stage.Advances table dryRun path work.files later next) :
    next.IsWarranted files table dryRun path := by
  cases hmove with
  | fails hread =>
    intro cause hcause
    cases hcause
    have hnot : ¬ files.IsRewritten table dryRun path := by
      rintro ⟨⟨text, htext, -⟩, -⟩
      obtain ⟨text', htext'⟩ := h.readable path text htext
      cases hread.symm.trans htext'
    exact .inl ((readText_congr (h.read_eq path hnot)).symm.trans hread)
  | @reads text hread =>
    rw [Stage.ofText_eq]
    split
    · rename_i hwrite
      by_contra hnot
      have hkept := h.read_eq path fun hrewritten => hnot hrewritten.1
      exact hnot ⟨text, (readText_congr hkept).symm.trans hread, hwrite⟩
    · intro cause hcause
      cases hcause
  | refused hrefused =>
    intro cause hcause
    cases hcause
    exact .inr ⟨rfl, hstage, (h.isReadOnly_iff path).1 hrefused⟩
  | writes hwritable hat hold =>
    intro cause hcause
    cases hcause

/-- **A step writes no other documents than those that have to be rewritten**, and none fails that
could be read and, if need be, written. -/
theorem Confined.step (h : work.Confined files table dryRun paths) (number : Nat) :
    (work.step table dryRun paths number).Confined files table dryRun paths := by
  rcases h.step_cases number with heq | ⟨path, stage, later, next, hpath, hstage, hmove, heq⟩
  · rw [heq]
    exact h
  rw [heq]
  have hthis := h.warranted number path stage hpath hstage
  have hlength : (work.stages.set number next).length = paths.length :=
    List.length_set.trans h.length_stages
  have hwarranted := forall_stages_set hpath hstage (h.isWarranted hthis hmove)
    fun i p s _ => h.warranted i p s
  cases hmove with
  | fails hread => exact { h with length_stages := hlength, warranted := hwarranted }
  | reads hread => exact { h with length_stages := hlength, warranted := hwarranted }
  | refused hrefused => exact { h with length_stages := hlength, warranted := hwarranted }
  | @writes rendition location old hwritable hat hold =>
    have hrewritten : files.IsRewritten table dryRun path :=
      ⟨hthis, (h.isReadOnly_iff path).not.1 hwritable⟩
    rw [h.fileAt?_eq] at hat
    refine ⟨hlength, hwarranted, ?_, h.readOnly_eq, ?_, ?_, ?_, ?_, ?_⟩
    · -- a write moves nothing
      intro other
      exact (fileAt?_set hold).trans (h.fileAt?_eq other)
    · intro other hnot
      have hne : files.fileAt? other ≠ some location := fun hother =>
        hnot (hrewritten.of_fileAt?_eq hat hother)
      rw [read_set hold, h.fileAt?_eq, if_neg hne]
      exact h.read_eq other hnot
    · intro other text htext
      by_cases hother : work.files.fileAt? other = some location
      · refine ⟨rendition.text, readText_eq_ok_iff.2 ?_⟩
        rw [read_set hold, if_pos hother]
      · obtain ⟨text', htext'⟩ := h.readable other text htext
        refine ⟨text', (readText_congr ?_).trans htext'⟩
        rw [read_set hold, if_neg hother]
    · intro other hnone
      have hroot : location ≠ [] := by
        rintro rfl
        cases hold
      have hne : other ≠ location := by
        rintro rfl
        exact hnone path (List.mem_of_getElem? hpath) hrewritten hat
      rw [get?_set work.files hroot, if_neg hne]
      exact h.get?_eq other hnone
    · intro hnone
      exact absurd hrewritten (hnone path (List.mem_of_getElem? hpath))
    · intro root extensions
      exact (discover_set hold root extensions).trans (h.discover_eq root extensions)

/-- In a dry run everything is as it was. -/
theorem Confined.files_eq_of_dryRun (h : work.Confined files table true paths) :
    work.files = files :=
  h.files_eq fun _ _ ⟨⟨_, _, hwrite⟩, _⟩ => Bool.false_ne_true hwrite.2.symm

/-- Undisturbed documents follow their own course, `files` being the file system at the
beginning. -/
structure OnTrack (files : FileSystem) (table : PhraseTable) (dryRun : Bool) (paths : List Text)
    (work : Work) : Prop extends work.Confined files table dryRun paths where
  /-- Each of these documents is at a stage that it comes to alone. -/
  follows : ∀ (number : Nat) (path : Text) (stage : Stage), paths[number]? = some path →
    work.stages[number]? = some stage → files.Undisturbed table dryRun paths number →
      stage.Follows files table dryRun path work.files

theorem onTrack_begin (files : FileSystem) (table : PhraseTable) (dryRun : Bool)
    (paths : List Text) : (begin files paths.length).OnTrack files table dryRun paths := by
  refine ⟨confined_begin files table dryRun paths, ?_⟩
  intro number path stage _ hstage _
  rw [stage_begin hstage]
  exact rfl

/-- **A step keeps undisturbed documents on their course.** -/
theorem OnTrack.step (h : work.OnTrack files table dryRun paths) (number : Nat) :
    (work.step table dryRun paths number).OnTrack files table dryRun paths := by
  refine ⟨h.toConfined.step number, ?_⟩
  rcases h.toConfined.step_cases number with
    heq | ⟨path, stage, later, next, hpath, hstage, hmove, heq⟩
  · rw [heq]
    exact h.follows
  rw [heq]
  have hreadOnly := h.isReadOnly_iff path
  refine forall_stages_set hpath hstage
    (fun hfree => (h.follows number path stage hpath hstage hfree).advance hreadOnly hmove) ?_
  -- an undisturbed document reads what it read before
  intro other path' stage' hother hpath' hstage' hfree
  refine (h.follows other path' stage' hpath' hstage' hfree).congr ?_
  cases hmove with
  | fails hread => rfl
  | reads hread => rfl
  | refused hrefused => rfl
  | @writes rendition location old hwritable hat hold =>
    have hrewritten : files.IsRewritten table dryRun path :=
      ⟨h.warranted number path _ hpath hstage, hreadOnly.not.1 hwritable⟩
    rw [h.fileAt?_eq] at hat
    rw [read_set hold, h.fileAt?_eq, if_neg]
    intro hat'
    exact hfree number path' path hpath' hpath (Ne.symm hother) hrewritten location hat' hat

/-- **So does a schedule.** -/
theorem OnTrack.run (h : work.OnTrack files table dryRun paths) (schedule : List Nat) :
    (work.run table dryRun paths schedule).OnTrack files table dryRun paths := by
  induction schedule generalizing work with
  | nil => exact h
  | cons number schedule ih => exact ih (h.step number)

/-- No file is made, and none is lost. -/
theorem Confined.isFile_iff (h : work.Confined files table dryRun paths) (location : Location) :
    (∃ octets, work.files.get? location = some (.file octets)) ↔
      ∃ octets, files.get? location = some (.file octets) := by
  by_cases hdocument : ∃ path ∈ paths, files.fileAt? path = some location
  · obtain ⟨path, -, hat⟩ := hdocument
    exact iff_of_true (exists_get?_of_fileAt? ((h.fileAt?_eq path).trans hat))
      (exists_get?_of_fileAt? hat)
  · rw [h.get?_eq location fun path hpath _ hat => hdocument ⟨path, hpath, hat⟩]

/-- When the work is over, an undisturbed document reads what it would read after the work on it
alone. -/
theorem OnTrack.read_eq_settledRead (h : work.OnTrack files table dryRun paths)
    (hover : work.IsOver) {number : Nat} {path : Text} (hpath : paths[number]? = some path)
    (hfree : files.Undisturbed table dryRun paths number) :
    work.files.read path = settledRead files table dryRun path := by
  have hlt : number < work.stages.length :=
    h.length_stages ▸ (List.getElem?_eq_some_iff.1 hpath).1
  exact (h.follows number path _ hpath (List.getElem?_eq_getElem hlt) hfree).read_eq
    (hover _ (List.getElem_mem hlt))

/-- When the work is over, an undisturbed document has come to what the work on it comes to
alone. -/
theorem OnTrack.finals_eq (h : work.OnTrack files table dryRun paths) (hover : work.IsOver)
    {number : Nat} {path : Text} (hpath : paths[number]? = some path)
    (hfree : files.Undisturbed table dryRun paths number) :
    work.finals[number]? = some (settledResult files table dryRun path) := by
  have hlength : work.finals.length = paths.length := hover.length_finals.trans h.length_stages
  have hlt : number < work.finals.length := hlength ▸ (List.getElem?_eq_some_iff.1 hpath).1
  have hfinal := List.getElem?_eq_getElem hlt
  have hstage := hover.finals_eq_some_iff.1 hfinal
  rw [hfinal, (h.follows number path _ hpath hstage hfree).2]

/-- When the work is over, it has failed on the documents on which it fails alone, be they disturbed
or not. -/
theorem OnTrack.result_eq_error_iff (h : work.OnTrack files table dryRun paths)
    (hover : work.IsOver) {number : Nat} {path : Text} (hpath : paths[number]? = some path)
    {result : Except IoError Report} (hresult : work.finals[number]? = some result)
    (cause : IoError) : result = .error cause ↔ files.FailsFor table dryRun path cause := by
  refine ⟨h.warranted number path _ hpath (hover.finals_eq_some_iff.1 hresult) cause, ?_⟩
  intro hfails
  have hfinal := h.finals_eq hover hpath
    (undisturbed_of_not_isRewritten hpath hfails.not_isRewritten)
  exact (Option.some.inj (hresult.symm.trans hfinal)).trans (settledResult_of_failsFor hfails)

/-- If no document is disturbed, that is so for all of them. -/
theorem OnTrack.finals_eq_map (h : work.OnTrack files table dryRun paths) (hover : work.IsOver)
    (hfree : ∀ number, files.Undisturbed table dryRun paths number) :
    work.finals = paths.map (settledResult files table dryRun) := by
  have hlength : work.finals.length = paths.length := hover.length_finals.trans h.length_stages
  refine List.ext_getElem? fun number => ?_
  rw [List.getElem?_map]
  cases hpath : paths[number]? with
  | none =>
    rw [List.getElem?_eq_none_iff] at hpath
    exact List.getElem?_eq_none (hlength ▸ hpath)
  | some path => exact h.finals_eq hover hpath (hfree number)

end Work

end Phrasebook
