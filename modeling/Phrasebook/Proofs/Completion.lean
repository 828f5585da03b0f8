import Phrasebook.Proofs.TreeRun
/-!
# Whatever is finished first

The tasks of a run end in an order that the documents have no influence on, some with a report and
some with an error. Each result comes under the name of its task, and the task had been made for one
document. The outcomes of the run are those of the documents that were discovered, one for each and
in their order, and each has the result of its own task.

## Main results

* `translateTreeBy_of_arrivals`: outcomes stay with their documents.
-/

namespace Phrasebook

variable {ι : Type} [DecidableEq ι] {files : FileSystem} {root : Text} {trails : List Trail}

/-- The names of the tasks of a number of documents. -/
def taskNames (name : Nat → ι) (documents : Nat) : List ι :=
  (List.range documents).map name

omit [DecidableEq ι] in
theorem nodup_taskNames {name : Nat → ι} {documents : Nat}
    (h : ∀ i < documents, ∀ j < documents, name i = name j → i = j) :
    (taskNames name documents).Nodup := by
  refine (List.nodup_map_iff_inj_on List.nodup_range).2 ?_
  intro i hi j hj
  exact h i (List.mem_range.1 hi) j (List.mem_range.1 hj)

/-- **Outcomes stay with their documents, whatever the order in which the work ends.** The paths of
the outcomes are those of the discovered documents, in the same order, and a document has the result
that its own work has come to. It makes no difference in which order the results arrive, or what the
tasks are called, as long as no two of them have one name. -/
theorem translateTreeBy_of_arrivals (table : PhraseTable) (options : TreeOptions)
    (hfound : discover files root options.extensions = .ok trails) {schedule : List Nat}
    {work : Work} (hwork : workOn files table options.dryRun root trails schedule = work)
    (hover : work.IsOver) {name : Nat → ι}
    (hname : ∀ i < trails.length, ∀ j < trails.length, name i = name j → i = j) :
    ∃ outcomes,
      translateTreeBy (fun _ => schedule) files table root options = .ok (outcomes, work.files) ∧
      outcomes.map Outcome.path = trails.map (Path.joinAll root) ∧
      (∀ (number : Nat) (result : Except IoError Report),
        (outcomes.map Outcome.result)[number]? = some result ↔
          work.stages[number]? = some (.finished result)) ∧
      ∀ arrived, arrived.Perm (work.results.map fun (number, result) => (name number, result)) →
        inOrder root (collect ((taskNames name trails.length).zip trails) arrived) = outcomes := by
  subst hwork
  have hlength := length_stages_workOn files table options.dryRun root trails schedule
  have hfinals := (hover.length_finals.trans hlength).symm
  refine ⟨_, translateTreeBy_of_isOver options hfound hover, map_path_zipWith hfinals.le root,
    ?_, ?_⟩
  · intro number result
    rw [map_result_zipWith hfinals.ge, hover.finals_eq_some_iff]
  · intro arrived harrived
    have hresults := (recorded_workOn files table options.dryRun root trails schedule).results_perm
      hover
    rw [hlength] at hresults
    have hnamed : arrived.Perm ((taskNames name trails.length).zip
        (workOn files table options.dryRun root trails schedule).finals) := by
      rw [taskNames, List.zip_map_left]
      exact harrived.trans (hresults.map _)
    have hnames : (taskNames name trails.length).length = trails.length := by
      rw [taskNames, List.length_map, List.length_range]
    exact inOrder_eq (nodup_discover hfound) (pairwise_precedes_discover hfound) hfinals
      (collect_perm (nodup_taskNames hname) hnames (hnames.trans hfinals) hnamed) root

/-- The second page is finished first, with an error, and its task has the smaller name. Each page
has its own result all the same. -/
theorem arrivals_of_pages :
    discover pages ['d'] defaultExtensions = .ok [[firstPage], [secondPage]] ∧
      (workOn pages pagesTable false ['d'] [[firstPage], [secondPage]] [1, 0, 1, 0]).IsOver ∧
      ∃ outcomes final,
        translateTreeBy (fun _ => [1, 0, 1, 0]) pages pagesTable ['d'] {} = .ok (outcomes, final) ∧
        (outcomes.map Outcome.result)[0]? = some (.ok ⟨1, 1, true⟩) ∧
        (outcomes.map Outcome.result)[1]? = some (.error .notUtf8) ∧
        inOrder ['d'] (collect [(8, [firstPage]), (7, [secondPage])]
          [(7, .error .notUtf8), (8, .ok ⟨1, 1, true⟩)]) = outcomes := by
  have hfound : discover pages ['d'] defaultExtensions = .ok [[firstPage], [secondPage]] :=
    discover_pages rfl rfl
  have hover : (workOn pages pagesTable false ['d'] [[firstPage], [secondPage]]
      [1, 0, 1, 0]).IsOver := isOver_workOn (by decide)
  have hrecorded := recorded_workOn pages pagesTable false ['d'] [[firstPage], [secondPage]]
    [1, 0, 1, 0]
  have hname : ∀ i < 2, ∀ j < 2, 8 - i = 8 - j → i = j := by decide
  obtain ⟨outcomes, hrun, -, hresults, harrived⟩ :=
    translateTreeBy_of_arrivals pagesTable {} hfound rfl hover hname
  refine ⟨hfound, hover, outcomes, _, hrun, ?_, ?_, ?_⟩
  · exact (hresults 0 _).2 ((hrecorded.mem_results_iff _ _).1 (by decide +kernel))
  · exact (hresults 1 _).2 ((hrecorded.mem_results_iff _ _).1 (by decide +kernel))
  · exact harrived _ (.of_eq (by decide +kernel))

end Phrasebook
