import Phrasebook.Proofs.AnySchedule
/-!
# A second run changes nothing

After a run, every document that could be read and written has its translation, be it the only one
with its file or not. If no identity overhangs a target, a second pass over a translation changes
nothing. A second run discovers the same documents, since a run leaves names and links alone, and so
it finds nothing to rewrite but what it cannot write, as the first run could not.

## Main definitions

* `NothingLeft`: what a second run comes to.

## Main results

* `SharedEffect.readText_eq`: what the documents read after a run.
* `SharedEffect.failsFor_iff`, `SharedEffect.not_isRewritten`: a second run fails on the same
  documents, and rewrites none.
* `translateTreeBy_twice`: a second run, by whatever schedule.
-/

namespace Phrasebook

open FileSystem

variable {files now : FileSystem} {table : PhraseTable} {root : Text} {trails : List Trail}
  {outcomes again : List Outcome}

namespace SharedEffect

theorem isReadOnly_iff (h : SharedEffect files table root trails outcomes now) (path : Text) :
    now.IsReadOnly path ↔ files.IsReadOnly path :=
  isReadOnly_congr (h.fileAt?_eq path) h.readOnly_eq

section

variable (h : SharedEffect files table root trails outcomes now)
  (hset : ∀ text, table.SettlesAtOnce text) {trail : Trail} (htrail : trail ∈ trails)

include h htrail

/-- A document that is refused is refused a second time. -/
theorem isRefused_of_isRefused
    (hrefused : files.IsRefused table false (Path.joinAll root trail)) :
    now.IsRefused table false (Path.joinAll root trail) :=
  (isRefused_congr (h.read_eq_of_failsFor htrail (.inr ⟨rfl, hrefused⟩))
    (h.isReadOnly_iff _)).2 hrefused

include hset

/-- If all texts settle at once, a run translates every document that can be read and is not
refused. -/
theorem readText_eq (hallowed : ¬ files.IsRefused table false (Path.joinAll root trail)) :
    now.readText (Path.joinAll root trail) =
      (files.readText (Path.joinAll root trail)).map fun text => (table.translate text).text := by
  obtain ⟨number, hnumber⟩ := List.mem_iff_getElem?.1 htrail
  obtain ⟨result, -, hmem⟩ := h.exists_outcome hnumber
  cases htext : files.readText (Path.joinAll root trail) with
  | error cause => exact (readText_congr (h.read_eq_of_failsFor htrail (.inl htext))).trans htext
  | ok text => exact readText_eq_ok_iff.2 (h.read_eq hmem htext hallowed fun _ => hset text)

/-- After the run, a pass over the text of such a document changes nothing. -/
theorem fixed_of_settlesAtOnce (hallowed : ¬ files.IsRefused table false (Path.joinAll root trail))
    {text : Text} (htext : now.readText (Path.joinAll root trail) = .ok text) :
    (table.translate text).text = text ∧ (table.translate text).substitutions = 0 := by
  rw [h.readText_eq hset htrail hallowed] at htext
  cases hbefore : files.readText (Path.joinAll root trail) with
  | error cause =>
    rw [hbefore] at htext
    cases htext
  | ok before =>
    rw [hbefore] at htext
    cases htext
    exact hset before

theorem not_needsRewrite (hallowed : ¬ files.IsRefused table false (Path.joinAll root trail)) :
    ¬ now.NeedsRewrite table false (Path.joinAll root trail) :=
  fun ⟨_, htext, hwrite⟩ => hwrite.1 (h.fixed_of_settlesAtOnce hset htrail hallowed htext).1

/-- After the run no document has to be rewritten that can be. -/
theorem not_isRewritten : ¬ now.IsRewritten table false (Path.joinAll root trail) := by
  by_cases hrefused : files.IsRefused table false (Path.joinAll root trail)
  · exact fun hrewritten => hrewritten.2 (h.isRefused_of_isRefused htrail hrefused).2
  · exact fun hrewritten => h.not_needsRewrite hset htrail hrefused hrewritten.1

/-- A second run fails on the same documents. -/
theorem failsFor_iff (cause : IoError) :
    now.FailsFor table false (Path.joinAll root trail) cause ↔
      files.FailsFor table false (Path.joinAll root trail) cause := by
  rw [FailsFor, FailsFor]
  by_cases hrefused : files.IsRefused table false (Path.joinAll root trail)
  · have hread := h.read_eq_of_failsFor htrail (.inr ⟨rfl, hrefused⟩)
    rw [readText_congr hread, isRefused_congr hread (h.isReadOnly_iff _)]
  · have hagain : ¬ now.IsRefused table false (Path.joinAll root trail) := fun hrefused' =>
      h.not_needsRewrite hset htrail hrefused hrefused'.1
    rw [h.readText_eq hset htrail hrefused]
    cases files.readText (Path.joinAll root trail) <;> simp [Except.map, hrefused, hagain]

end

/-- The report on a document whose text a pass does not change. -/
theorem report_of_fixed (h : SharedEffect files table root trails outcomes now)
    {outcome : Outcome} (hmem : outcome ∈ outcomes) {report : Report}
    (hreport : outcome.result = .ok report)
    (hfixed : ∀ text, files.readText outcome.path = .ok text →
      ¬ files.IsRefused table false outcome.path →
        (table.translate text).text = text ∧ (table.translate text).substitutions = 0) :
    report.substitutions = 0 ∧ report.written = false := by
  have hnever : ∀ cause, ¬ files.FailsFor table false outcome.path cause := fun cause hfails =>
    nomatch hreport.symm.trans ((h.result_eq_error_iff outcome hmem cause).2 hfails)
  cases htext : files.readText outcome.path with
  | error cause => exact absurd (.inl htext) (hnever cause)
  | ok text =>
    have hallowed : ¬ files.IsRefused table false outcome.path := fun hrefused =>
      hnever _ (.inr ⟨rfl, hrefused⟩)
    obtain ⟨hsame, hzero⟩ := hfixed text htext hallowed
    have hset : table.SettlesAtOnce text := by
      rw [PhraseTable.SettlesAtOnce, hsame]
      exact ⟨hsame, hzero⟩
    obtain ⟨-, hresult, -⟩ := h.of_settlesAtOnce outcome hmem text htext hallowed hset
    rcases hresult with hresult | hresult
    · cases hreport.symm.trans hresult
      rw [PhraseTable.reportOn_of_fixed hsame]
      exact ⟨hzero, rfl⟩
    · cases hreport.symm.trans hresult
      exact ⟨rfl, rfl⟩

end SharedEffect

/-- What a run comes to on a file system `now` that a run with certain outcomes has left. -/
structure NothingLeft (outcomes : List Outcome) (now : FileSystem) (again : List Outcome)
    (final : FileSystem) : Prop where
  /-- Everything stays as it is. -/
  files_eq : final = now
  /-- The outcomes are about the same paths. -/
  map_path : again.map Outcome.path = outcomes.map Outcome.path
  /-- The same documents fail, for the same cause. -/
  error_iff : ∀ (number : Nat) (cause : IoError),
    (again.map Outcome.result)[number]? = some (.error cause) ↔
      (outcomes.map Outcome.result)[number]? = some (.error cause)
  /-- For the others it is reported that nothing was substituted, and nothing written. -/
  report : ∀ outcome ∈ again, ∀ report, outcome.result = .ok report →
    report.substitutions = 0 ∧ report.written = false

/-- A run after a run, if all texts settle at once. -/
theorem nothingLeft_of_settlesAtOnce (hset : ∀ text, table.SettlesAtOnce text)
    (hnodup : trails.Nodup) (h : SharedEffect files table root trails outcomes now)
    {schedule : List Nat} (hover : (workOn now table false root trails schedule).IsOver) :
    NothingLeft outcomes now
      (List.zipWith (Outcome.of root) trails (workOn now table false root trails schedule).finals)
      (workOn now table false root trails schedule).files := by
  have htrack := onTrack_workOn now table false root trails schedule
  have hagain := sharedEffect_of_isOver hnodup (sharing_workOn now table root trails schedule)
    htrack hover
  refine ⟨?_, hagain.map_path.trans h.map_path.symm, ?_, ?_⟩
  · -- no document is rewritten
    refine htrack.files_eq fun path hpath => ?_
    obtain ⟨trail, htrail, rfl⟩ := List.mem_map.1 hpath
    exact h.not_isRewritten hset htrail
  · intro number cause
    rw [hagain.result?_eq_error_iff, h.result?_eq_error_iff]
    refine exists_congr fun trail => and_congr_right fun hnumber => ?_
    exact h.failsFor_iff hset (List.mem_of_getElem? hnumber) cause
  · intro outcome hmem report hreport
    refine hagain.report_of_fixed hmem hreport fun text htext hallowed => ?_
    have htrail : outcome.trail ∈ trails := hagain.map_trail ▸ List.mem_map_of_mem hmem
    rw [hagain.path_eq outcome hmem] at htext hallowed
    have hfirst : ¬ files.IsRefused table false (Path.joinAll root outcome.trail) := fun hrefused =>
      hallowed (h.isRefused_of_isRefused htrail hrefused)
    exact h.fixed_of_settlesAtOnce hset htrail hfirst htext

/-- **A second run changes nothing.** If no identity of a validated table overhangs a target, then
after a run that has ended the same documents are discovered, and a second run that ends, by
whatever schedule, writes nothing and substitutes nothing, and the same documents fail. That is so
even if there were documents that could not be written. The shipped tables are what validation makes
of their listings, and their identities are of this kind. -/
theorem translateTreeBy_twice :
    (∀ (phrases : List (Phrase Char)) (table : PhraseTable),
      PhraseTable.ofList phrases = .ok table → Phrase.IdentitiesFit table.phrases →
        ∀ (files : FileSystem) (root : Text) (extensions : List Text) (trails : List Trail)
          (schedule : List Nat) (outcomes : List Outcome) (now : FileSystem),
          discover files root extensions = .ok trails →
          (workOn files table false root trails schedule).IsOver →
          translateTreeBy (fun _ => schedule) files table root { extensions } =
            .ok (outcomes, now) →
          discover now root extensions = .ok trails ∧
          ∀ schedule' : List Nat, (workOn now table false root trails schedule').IsOver →
            ∃ again final,
              translateTreeBy (fun _ => schedule') now table root { extensions } =
                .ok (again, final) ∧
              NothingLeft outcomes now again final) ∧
    ∀ table : ShippedTable, PhraseTable.ofList table.listing = .ok (PhraseTable.shipped table) ∧
      Phrase.IdentitiesFit (PhraseTable.shipped table).phrases := by
  refine ⟨?_, fun table =>
    ⟨PhraseTable.ofList_listing table, PhraseTable.identitiesFit_shipped table⟩⟩
  intro phrases table hlist hfit files root extensions trails schedule outcomes now hfound hover
    hrun
  have hset := PhraseTable.settlesAtOnce_of_identitiesFit hlist hfit
  have hnodup := nodup_discover hfound
  have heffect := sharedEffect_of_isOver hnodup (sharing_workOn files table root trails schedule)
    (onTrack_workOn files table false root trails schedule) hover
  cases hrun.symm.trans (translateTreeBy_of_isOver { extensions } hfound hover)
  have hfound' := (heffect.discover_eq extensions).trans hfound
  refine ⟨hfound', fun schedule' hover' => ?_⟩
  exact ⟨_, _, translateTreeBy_of_isOver { extensions } hfound' hover',
    nothingLeft_of_settlesAtOnce hset hnodup heffect hover'⟩

/-- The page has a link at its side, and the table has identities that fit. In the first run both
documents are read before either of them is written. -/
theorem nothingLeft_of_linked :
    PhraseTable.ofList PhraseTable.fitting = .ok PhraseTable.fittingTable ∧
      Phrase.IdentitiesFit PhraseTable.fittingTable.phrases ∧
      discover (linked ['x', 'y', 'e', 'f', 'f']) ['d'] defaultExtensions =
        .ok [[firstPage], [secondPage]] ∧
      ∃ outcomes now again final,
        translateTreeBy (fun _ => [0, 1, 0, 1]) (linked ['x', 'y', 'e', 'f', 'f'])
          PhraseTable.fittingTable ['d'] {} = .ok (outcomes, now) ∧
        translateTreeBy (fun _ => [1, 1, 0, 0]) now PhraseTable.fittingTable ['d'] {} =
          .ok (again, final) ∧
        NothingLeft outcomes now again final := by
  have hfound := discover_linked ['x', 'y', 'e', 'f', 'f']
  have hfirst : ∀ number < 2, 2 ≤ [0, 1, 0, 1].count number := by decide
  obtain ⟨outcomes, hrun, -⟩ :=
    translateTreeBy_linked ['x', 'y', 'e', 'f', 'f'] PhraseTable.fittingTable hfirst
  obtain ⟨-, htwice⟩ := translateTreeBy_twice.1 _ _ PhraseTable.ofList_fitting
    PhraseTable.identitiesFit_fitting _ ['d'] defaultExtensions _ _ _ _ hfound
    (isOver_workOn hfirst) hrun
  obtain ⟨again, final, hagain, hnothing⟩ := htwice [1, 1, 0, 0] (isOver_workOn (by decide))
  exact ⟨PhraseTable.ofList_fitting, PhraseTable.identitiesFit_fitting, hfound, outcomes, _, again,
    final, hrun, hagain, hnothing⟩

end Phrasebook
