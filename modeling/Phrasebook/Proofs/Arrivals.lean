import Phrasebook.Proofs.Discovery
import Phrasebook.Tree.Run
/-!
# Results in any order of arrival

The results of the documents arrive in whatever order the work on them ends, each under the number
of its document. A number is looked up among those that still wait, and taken out. As no number
arrives twice, taking numbers out changes no later look-up, so in the end each document has its own
result; and as no two documents have one trail, sorting by trails leaves nothing open.

## Main results

* `collect_perm`: each result is put to the owner of its number, in whatever order they arrive.
* `inOrder_eq`: the outcomes are those of the documents, in the order of the documents.
-/

namespace Phrasebook

section

variable {ι α β : Type} [DecidableEq ι]

/-- If no number arrives twice, a result is put to what had its number at the beginning. -/
theorem collect_eq_filterMap (waiting : List (ι × α)) {arrived : List (ι × β)}
    (h : (arrived.map Prod.fst).Nodup) :
    collect waiting arrived = arrived.filterMap fun arrival =>
      (waiting.find? fun entry => entry.1 = arrival.1).map fun entry => (entry.2, arrival.2) := by
  induction arrived generalizing waiting with
  | nil => rfl
  | cons first rest ih =>
    obtain ⟨number, result⟩ := first
    obtain ⟨hnew, hrest⟩ := List.nodup_cons.1 h
    rw [collect, List.filterMap_cons]
    cases hfound : waiting.find? fun entry => entry.1 = number with
    | none =>
      simp only [Option.map_none]
      exact ih waiting hrest
    | some entry =>
      simp only [Option.map_some]
      refine congrArg (_ :: ·) ((ih _ hrest).trans (List.filterMap_congr fun later hlater => ?_))
      have hne : later.1 ≠ number := by
        rintro rfl
        exact hnew (List.mem_map.2 ⟨later, hlater, rfl⟩)
      rw [List.find?_filter]
      congr 2
      funext other
      by_cases heq : other.1 = later.1 <;> simp [heq, hne]

/-- If every number is looked up to its owner, the results are put to the owners one by one. -/
theorem filterMap_zip {waiting : List (ι × α)} {numbers : List ι} {owners : List α}
    (results : List β) (hlength : numbers.length = owners.length)
    (h : ∀ numbered ∈ numbers.zip owners,
      (waiting.find? fun entry => entry.1 = numbered.1) = some numbered) :
    (numbers.zip results).filterMap (fun arrival =>
      (waiting.find? fun entry => entry.1 = arrival.1).map fun entry => (entry.2, arrival.2)) =
        owners.zip results := by
  induction numbers generalizing owners results with
  | nil =>
    obtain rfl : owners = [] := List.eq_nil_of_length_eq_zero hlength.symm
    rfl
  | cons number numbers ih =>
    obtain ⟨owner, owners, rfl⟩ := List.exists_cons_of_length_eq_add_one hlength.symm
    cases results with
    | nil => rfl
    | cons result results =>
      have hfirst := h (number, owner) List.mem_cons_self
      have hrest := ih results (Nat.succ.inj hlength) fun numbered hmem =>
        h numbered (List.mem_cons_of_mem _ hmem)
      simp only [List.zip_cons_cons, List.filterMap_cons, hfirst, Option.map_some, hrest]

/-- **Each result is put to the owner of its number**, in whatever order the results arrive. None is
lost, and none is put to another owner. -/
theorem collect_perm {numbers : List ι} {owners : List α} {results : List β}
    {arrived : List (ι × β)} (hnodup : numbers.Nodup) (howners : numbers.length = owners.length)
    (hresults : numbers.length = results.length) (h : arrived.Perm (numbers.zip results)) :
    (collect (numbers.zip owners) arrived).Perm (owners.zip results) := by
  have hnumbers : (arrived.map Prod.fst).Nodup := by
    rw [(h.map Prod.fst).nodup_iff, List.map_fst_zip hresults.le]
    exact hnodup
  have hkeys : ((numbers.zip owners).map Prod.fst).Nodup := by
    rwa [List.map_fst_zip howners.le]
  rw [collect_eq_filterMap _ hnumbers]
  refine (h.filterMap _).trans (.of_eq (filterMap_zip results howners fun numbered hmem => ?_))
  exact (find?_key_eq_some_iff hkeys).2 ⟨hmem, rfl⟩

end

/-! ### Outcomes in the order of the documents -/

section

variable {trails : List Trail} {finals : List (Except IoError Report)}

theorem mem_zipWith_iff {root : Text} {outcome : Outcome} :
    outcome ∈ List.zipWith (Outcome.of root) trails finals ↔
      ∃ (number : Nat) (trail : Trail) (result : Except IoError Report),
        trails[number]? = some trail ∧ finals[number]? = some result ∧
          Outcome.of root trail result = outcome := by
  simp only [List.mem_iff_getElem?, List.getElem?_zipWith_eq_some]

theorem map_trail_zipWith (h : trails.length ≤ finals.length) (root : Text) :
    (List.zipWith (Outcome.of root) trails finals).map Outcome.trail = trails := by
  rw [← List.map_uncurry_zip_eq_zipWith, List.map_map]
  exact List.map_fst_zip h

theorem map_result_zipWith (h : finals.length ≤ trails.length) (root : Text) :
    (List.zipWith (Outcome.of root) trails finals).map Outcome.result = finals := by
  rw [← List.map_uncurry_zip_eq_zipWith, List.map_map]
  exact List.map_snd_zip h

theorem map_path_zipWith (h : trails.length ≤ finals.length) (root : Text) :
    (List.zipWith (Outcome.of root) trails finals).map Outcome.path =
      trails.map (Path.joinAll root) := by
  conv_rhs => rw [← map_trail_zipWith h root, List.map_map]
  refine List.map_congr_left fun outcome houtcome => ?_
  obtain ⟨_, _, _, -, -, rfl⟩ := mem_zipWith_iff.1 houtcome
  rfl

/-- **The outcomes are those of the documents, in the order of the documents**, in whatever order
the documents got their results. -/
theorem inOrder_eq (hnodup : trails.Nodup)
    (hsorted : trails.Pairwise fun a b => a.precedes b = true)
    (hlength : trails.length = finals.length)
    {collected : List (Trail × Except IoError Report)} (h : collected.Perm (trails.zip finals))
    (root : Text) : inOrder root collected = List.zipWith (Outcome.of root) trails finals := by
  have htrails := map_trail_zipWith hlength.le root
  have hperm : (inOrder root collected).Perm (List.zipWith (Outcome.of root) trails finals) := by
    rw [← List.map_uncurry_zip_eq_zipWith]
    exact (List.mergeSort_perm _ _).trans (h.map _)
  have hmerged : (inOrder root collected).Pairwise fun a b => a.trail.precedes b.trail = true :=
    Trail.pairwise_mergeSort_precedes Outcome.trail _
  have hzipped : (List.zipWith (Outcome.of root) trails finals).Pairwise fun a b =>
      a.trail.precedes b.trail = true :=
    List.pairwise_map.1 (htrails.symm ▸ hsorted)
  -- only outcomes of one document are tied, and a document has one outcome
  refine hperm.eq_of_pairwise (fun a b ha hb hab hba => ?_) hmerged hzipped
  exact List.inj_on_of_nodup_map (htrails.symm ▸ hnodup) (hperm.mem_iff.1 ha) hb
    (Trail.eq_of_precedes hab hba)

end

end Phrasebook
