import Phrasebook.Proofs.Lists
import Phrasebook.Tree.Run
/-!
# The steps of a schedule

A schedule takes one step of one document after the other. A document that is not over takes its
next step, and its result is kept under its number when that was the last one. So however the files
change meanwhile, two steps for each document are enough, and in the end there is one result for
each of them.

## Main definitions

* `Work.Recorded`: the invariant of the results.
* `Work.IsOver`, `Work.finals`: no document has a step left, and what each of them has come to.

## Main results

* `Work.step_cases`: all that a step can do.
* `Work.Recorded.step`, `Work.Recorded.run`: each result is kept once, under its number.
* `Work.isOver_of_two_le_count`: two steps for each document are enough.
* `Work.Recorded.results_perm`: in the end there is one result for each document.
-/

namespace Phrasebook

variable {files : FileSystem} {table : PhraseTable} {dryRun : Bool} {path : Text}

/-! ### One document -/

/-- A document with this text is written: it changes, and the run is no dry run. -/
def Rewrites (table : PhraseTable) (dryRun : Bool) (text : Text) : Prop :=
  (table.translate text).text ≠ text ∧ dryRun = false

instance (table : PhraseTable) (dryRun : Bool) (text : Text) :
    Decidable (Rewrites table dryRun text) :=
  inferInstanceAs (Decidable (_ ∧ _))

theorem Stage.ofText_eq (table : PhraseTable) (dryRun : Bool) (text : Text) :
    Stage.ofText table dryRun text =
      if Rewrites table dryRun text then .unwritten (table.translate text)
      else .finished (.ok ((table.translate text).report false)) := by
  have hiff :
      (table.translate text).text ≠ text ∧ (!dryRun) = true ↔ Rewrites table dryRun text := by
    rw [Rewrites, Bool.not_eq_true']
  simp only [Stage.ofText, hiff]

/-- The result of a stage at which the work is over. -/
def Stage.result? : Stage → Option (Except IoError Report)
  | .finished result => some result
  | _ => none

theorem Stage.result?_eq_some_iff {stage : Stage} {result : Except IoError Report} :
    stage.result? = some result ↔ stage = .finished result := by
  cases stage <;> simp [result?]

/-- How many steps a document at this stage has left, at the most. -/
def Stage.stepsLeft : Stage → Nat
  | .unread => 2
  | .unwritten _ => 1
  | .finished _ => 0

theorem Stage.result?_isSome {stage : Stage} (h : stage.stepsLeft = 0) :
    stage.result?.isSome := by
  cases stage with
  | unread => cases h
  | unwritten rendition => cases h
  | finished result => rfl

theorem Stage.stepsLeft_advance {later : FileSystem} {stage next : Stage}
    (hopen : stage.result? = none)
    (hnext : stage.advance table dryRun path files = (later, next)) :
    next.stepsLeft < stage.stepsLeft := by
  cases stage with
  | finished result => cases hopen
  | unread =>
    rw [Stage.advance] at hnext
    split at hnext
    · cases hnext
      exact Nat.two_pos
    · obtain ⟨-, rfl⟩ := Prod.mk.inj hnext
      rw [Stage.ofText_eq]
      split
      · exact Nat.one_lt_two
      · exact Nat.two_pos
  | unwritten rendition =>
    rw [Stage.advance] at hnext
    split at hnext <;> cases hnext <;> exact Nat.one_pos

/-! ### All documents -/

namespace Work

variable {paths : List Text} {work : Work}

/-- **All that a step can do.** It does nothing if there is no such document, or the work on it is
over. Otherwise the document takes its next step, and its result is kept if that was the last. -/
theorem step_cases (table : PhraseTable) (dryRun : Bool) (paths : List Text) (work : Work)
    (number : Nat) :
    (work.step table dryRun paths number = work ∧
      ∀ path stage, paths[number]? = some path → work.stages[number]? = some stage →
        stage.result? ≠ none) ∨
    ∃ path stage later next, paths[number]? = some path ∧ work.stages[number]? = some stage ∧
      stage.result? = none ∧ stage.advance table dryRun path work.files = (later, next) ∧
        work.step table dryRun paths number =
          ⟨later, work.stages.set number next,
            work.results ++ (next.result?.map (number, ·)).toList⟩ := by
  cases hpath : paths[number]? with
  | none =>
    refine .inl ⟨?_, fun path stage h => nomatch h⟩
    simp only [step, hpath]
  | some path =>
    cases hstage : work.stages[number]? with
    | none =>
      refine .inl ⟨?_, fun path stage _ h => nomatch h⟩
      simp only [step, hpath, hstage]
    | some stage =>
      cases hresult : stage.result? with
      | some result =>
        cases stage with
        | unread => cases hresult
        | unwritten rendition => cases hresult
        | finished final =>
          refine .inl ⟨by simp only [step, hpath, hstage], ?_⟩
          intro path' stage' _ h
          cases h
          exact Option.some_ne_none _
      | none =>
        obtain ⟨⟨later, next⟩, hnext⟩ :
            ∃ moved, stage.advance table dryRun path work.files = moved := ⟨_, rfl⟩
        refine .inr ⟨path, stage, later, next, rfl, rfl, hresult, hnext, ?_⟩
        cases stage with
        | finished final => cases hresult
        | unread =>
          simp only [step, hpath, hstage, hnext]
          cases next <;> simp [Stage.result?]
        | unwritten rendition =>
          simp only [step, hpath, hstage, hnext]
          cases next <;> simp [Stage.result?]

theorem stage_begin {documents number : Nat} {stage : Stage}
    (h : (begin files documents).stages[number]? = some stage) : stage = .unread := by
  rw [begin, List.getElem?_replicate] at h
  split at h <;> cases h
  rfl

/-- What holds of a document after its step, and of the others as they are, holds of all. -/
theorem forall_stages_set {stages : List Stage} {number : Nat} {stage next : Stage}
    {P : Nat → Text → Stage → Prop} (hpath : paths[number]? = some path)
    (hstage : stages[number]? = some stage) (hnext : P number path next)
    (hothers : ∀ i p s, i ≠ number → paths[i]? = some p → stages[i]? = some s → P i p s)
    (i : Nat) (p : Text) (s : Stage) (hp : paths[i]? = some p)
    (hs : (stages.set number next)[i]? = some s) : P i p s := by
  by_cases hi : i = number
  · subst hi
    rw [List.getElem?_set_self (List.getElem?_eq_some_iff.1 hstage).1] at hs
    cases hpath.symm.trans hp
    cases hs
    exact hnext
  · exact hothers i p s hi hp ((List.getElem?_set_ne (Ne.symm hi)).symm.trans hs)

/-- The results are those of the documents on which the work is over. -/
structure Recorded (work : Work) : Prop where
  /-- A result is there, with the number of its document, exactly if the work has come to it. -/
  mem_results_iff : ∀ number result, (number, result) ∈ work.results ↔
    work.stages[number]? = some (.finished result)
  /-- No document has two results. -/
  nodup_results : (work.results.map Prod.fst).Nodup

theorem recorded_begin (files : FileSystem) (documents : Nat) :
    (begin files documents).Recorded := by
  refine ⟨fun number result => ?_, List.nodup_nil⟩
  simp [begin, List.getElem?_replicate]

/-- **A step records the result of the document that it finishes**, and leaves the others alone. -/
theorem Recorded.step (h : work.Recorded) (table : PhraseTable) (dryRun : Bool)
    (paths : List Text) (number : Nat) : (work.step table dryRun paths number).Recorded := by
  rcases step_cases table dryRun paths work number with
    ⟨heq, -⟩ | ⟨path, stage, later, next, -, hstage, hopen, -, heq⟩
  · rw [heq]
    exact h
  have hlt : number < work.stages.length := (List.getElem?_eq_some_iff.1 hstage).1
  rw [heq]
  refine ⟨fun other result => ?_, ?_⟩
  · rw [List.mem_append, h.mem_results_iff, List.getElem?_set]
    by_cases hother : number = other
    · subst hother
      have hunfinished : stage ≠ .finished result := by
        rintro rfl
        cases hopen
      rw [if_pos rfl, if_pos hlt, hstage]
      simp [hunfinished, Stage.result?_eq_some_iff]
    · simp [hother]
  · have hnew : number ∉ work.results.map Prod.fst := by
      intro hmem
      obtain ⟨⟨_, result⟩, hresult, rfl⟩ := List.mem_map.1 hmem
      cases hstage.symm.trans ((h.mem_results_iff _ _).1 hresult)
      cases hopen
    cases hresult : next.result? with
    | none => simpa [hresult] using h.nodup_results
    | some result =>
      simp only [Option.map_some, Option.toList_some, List.map_append, List.map_cons,
        List.map_nil]
      exact List.nodup_append.2 ⟨h.nodup_results, List.pairwise_singleton _ _,
        fun l hl m hm => by rintro rfl; exact hnew (List.mem_singleton.1 hm ▸ hl)⟩

/-- **So does a schedule.** -/
theorem Recorded.run (h : work.Recorded) (table : PhraseTable) (dryRun : Bool)
    (paths : List Text) (schedule : List Nat) :
    (work.run table dryRun paths schedule).Recorded := by
  induction schedule generalizing work with
  | nil => exact h
  | cons number schedule ih => exact ih (h.step table dryRun paths number)

/-! ### The end of the work -/

/-- No document has a step left. -/
def IsOver (work : Work) : Prop :=
  ∀ stage ∈ work.stages, stage.result?.isSome

theorem stepsLeft_step (table : PhraseTable) (dryRun : Bool) {i : Nat} {stage : Stage}
    (hi : i < paths.length) (hstage : work.stages[i]? = some stage) (number : Nat) :
    ∃ next, (work.step table dryRun paths number).stages[i]? = some next ∧
      next.stepsLeft ≤ stage.stepsLeft - if number = i then 1 else 0 := by
  rcases step_cases table dryRun paths work number with
    ⟨heq, hover⟩ | ⟨path, taken, later, next, -, htaken, hopen, hnext, heq⟩
  · refine ⟨stage, by rwa [heq], ?_⟩
    split
    · rename_i hnumber
      subst hnumber
      cases stage with
      | finished result => exact Nat.le_refl _
      | unread => exact absurd rfl (hover _ _ (List.getElem?_eq_getElem hi) hstage)
      | unwritten rendition => exact absurd rfl (hover _ _ (List.getElem?_eq_getElem hi) hstage)
    · exact Nat.le_refl _
  · rw [heq]
    by_cases hnumber : number = i
    · subst hnumber
      cases hstage.symm.trans htaken
      refine ⟨next, ?_, ?_⟩
      · exact List.getElem?_set_self (List.getElem?_eq_some_iff.1 htaken).1
      · rw [if_pos rfl]
        exact Nat.le_sub_one_of_lt (Stage.stepsLeft_advance hopen hnext)
    · refine ⟨stage, ?_, ?_⟩
      · exact (List.getElem?_set_ne hnumber).trans hstage
      · rw [if_neg hnumber]
        exact Nat.le_refl _

/-- Each step of a document in a schedule is one step less that it has left. -/
theorem stepsLeft_run (table : PhraseTable) (dryRun : Bool) {i : Nat} {stage : Stage}
    (hi : i < paths.length) (hstage : work.stages[i]? = some stage) (schedule : List Nat) :
    ∃ next, (work.run table dryRun paths schedule).stages[i]? = some next ∧
      next.stepsLeft ≤ stage.stepsLeft - schedule.count i := by
  induction schedule generalizing work stage with
  | nil => exact ⟨stage, hstage, Nat.le_refl _⟩
  | cons number schedule ih =>
    obtain ⟨middle, hmiddle, hle⟩ := stepsLeft_step table dryRun hi hstage number
    obtain ⟨next, hnext, hle'⟩ := ih hmiddle
    refine ⟨next, hnext, ?_⟩
    simp only [List.count_cons, beq_iff_eq]
    omega

theorem length_stages_run (schedule : List Nat) :
    (work.run table dryRun paths schedule).stages.length = work.stages.length := by
  induction schedule generalizing work with
  | nil => rfl
  | cons number schedule ih =>
    refine ih.trans ?_
    rcases step_cases table dryRun paths work number with
      ⟨heq, -⟩ | ⟨path, stage, later, next, -, -, -, -, heq⟩
    · rw [heq]
    · rw [heq]
      exact List.length_set

/-- **Two steps for each document are enough**, in whatever order. -/
theorem isOver_of_two_le_count {schedule : List Nat}
    (h : ∀ number < paths.length, 2 ≤ schedule.count number) :
    ((begin files paths.length).run table dryRun paths schedule).IsOver := by
  intro stage hstage
  obtain ⟨i, hi, rfl⟩ := List.mem_iff_getElem.1 hstage
  have hlt : i < paths.length := by
    rwa [length_stages_run, begin, List.length_replicate] at hi
  have hunread : (begin files paths.length).stages[i]? = some .unread :=
    List.getElem?_replicate_of_lt hlt
  obtain ⟨next, hnext, hle⟩ := stepsLeft_run table dryRun hlt hunread schedule
  obtain ⟨hi', rfl⟩ := List.getElem?_eq_some_iff.1 hnext
  apply Stage.result?_isSome
  have := h i hlt
  have : Stage.unread.stepsLeft = 2 := rfl
  omega

/-- The results of the documents on which the work is over, in the order of the documents. -/
def finals (work : Work) : List (Except IoError Report) :=
  work.stages.filterMap Stage.result?

theorem IsOver.map_result? (hover : work.IsOver) :
    work.stages.map Stage.result? = work.finals.map some := by
  rw [finals, List.map_filterMap]
  conv_lhs => rw [← List.filterMap_eq_map (f := Stage.result?)]
  refine List.filterMap_congr fun stage hstage => ?_
  obtain ⟨result, hresult⟩ := Option.isSome_iff_exists.1 (hover stage hstage)
  simp [hresult]

theorem IsOver.length_finals (hover : work.IsOver) : work.finals.length = work.stages.length := by
  simpa using (congrArg List.length hover.map_result?).symm

/-- The result of a document when the work is over. -/
theorem IsOver.finals_eq_some_iff (hover : work.IsOver) {number : Nat}
    {result : Except IoError Report} :
    work.finals[number]? = some result ↔ work.stages[number]? = some (.finished result) := by
  have hget := congrArg (·[number]?) hover.map_result?
  simp only [List.getElem?_map] at hget
  have hfinal : work.finals[number]? = some result ↔
      work.finals[number]?.map some = some (some result) := by simp
  rw [hfinal, ← hget, Option.map_eq_some_iff]
  simp [Stage.result?_eq_some_iff]

/-- When the work is over, there is one result for each document. -/
theorem Recorded.results_perm (h : work.Recorded) (hover : work.IsOver) :
    work.results.Perm ((List.range work.stages.length).zip work.finals) := by
  have hnumbers : ((work.finals.zipIdx.map Prod.swap).map Prod.fst).Nodup := by
    rw [zipIdx_map_swap, List.map_fst_zip (by simp)]
    exact List.nodup_range
  rw [← hover.length_finals, ← zipIdx_map_swap]
  refine (List.perm_ext_iff_of_nodup (.of_map _ h.nodup_results) (.of_map _ hnumbers)).2 ?_
  rintro ⟨number, result⟩
  rw [h.mem_results_iff, ← hover.finals_eq_some_iff]
  simp [List.mem_zipIdx_iff_getElem?]

end Work

end Phrasebook
