import Phrasebook.Proofs.Arrivals
import Phrasebook.Proofs.DocumentPath
import Phrasebook.Proofs.SideBySide
/-!
# What a run over a tree comes to

The work on the documents of a tree comes to one outcome for each document, in the order of the
documents, whatever the schedule, as long as the documents are different files. Without links they
always are, and everything that the run does to the file system can be told from the octets that the
documents had before, and from which of them are read-only.

## Main definitions

* `workOn`: the work on the documents under a root after the steps of a schedule.
* `settledOutcome`: what the work on a document comes to alone.
* `TreeEffect`: what a run over a file system without links does.

## Main results

* `translateTreeBy_eq`: the outcomes of a run do not depend on the schedule.
* `translateTreeBy_of_linkFree`: the effect of a run over a file system without links.

## Implementation notes

A walk opens directories by their paths, but not files. So a document can be found by a path that is
too long to be read by; `longRoot` is a root all of whose documents are like that.
-/

namespace Phrasebook

open FileSystem

variable {files : FileSystem} {table : PhraseTable} {dryRun : Bool} {root : Text}
  {trails : List Trail}

/-! ### Outcomes in the order of the documents -/

/-- The work on the documents under a root after the steps of a schedule. -/
def workOn (files : FileSystem) (table : PhraseTable) (dryRun : Bool) (root : Text)
    (trails : List Trail) (schedule : List Nat) : Work :=
  (Work.begin files trails.length).run table dryRun (trails.map (Path.joinAll root)) schedule

/-- A run that succeeds has found its documents, and worked on them by its schedule. -/
theorem exists_workOn_of_translateTreeBy {options : TreeOptions} {schedule : Nat → List Nat}
    {reported : List Outcome} {final : FileSystem}
    (h : translateTreeBy schedule files table root options = .ok (reported, final)) :
    ∃ trails, discover files root options.extensions = .ok trails ∧
      outcomes root trails
        (workOn files table options.dryRun root trails (schedule trails.length)).results =
          reported ∧
      (workOn files table options.dryRun root trails (schedule trails.length)).files = final := by
  obtain ⟨trails, hfound, h⟩ := exists_eq_ok_of_bind h
  cases h
  exact ⟨trails, hfound, rfl, rfl⟩

theorem onTrack_workOn (files : FileSystem) (table : PhraseTable) (dryRun : Bool) (root : Text)
    (trails : List Trail) (schedule : List Nat) :
    (workOn files table dryRun root trails schedule).OnTrack files table dryRun
      (trails.map (Path.joinAll root)) := by
  have hbegin := Work.onTrack_begin files table dryRun (trails.map (Path.joinAll root))
  rw [List.length_map] at hbegin
  exact hbegin.run schedule

theorem recorded_workOn (files : FileSystem) (table : PhraseTable) (dryRun : Bool) (root : Text)
    (trails : List Trail) (schedule : List Nat) :
    (workOn files table dryRun root trails schedule).Recorded :=
  (Work.recorded_begin files trails.length).run table dryRun _ schedule

theorem length_stages_workOn (files : FileSystem) (table : PhraseTable) (dryRun : Bool)
    (root : Text) (trails : List Trail) (schedule : List Nat) :
    (workOn files table dryRun root trails schedule).stages.length = trails.length :=
  (Work.length_stages_run schedule).trans List.length_replicate

theorem isOver_workOn {schedule : List Nat}
    (h : ∀ number < trails.length, 2 ≤ schedule.count number) :
    (workOn files table dryRun root trails schedule).IsOver := by
  have hlength : (trails.map (Path.joinAll root)).length = trails.length := List.length_map _
  rw [workOn, ← hlength]
  exact Work.isOver_of_two_le_count (hlength ▸ h)

/-- The schedule in rounds leaves no document unfinished. -/
theorem isOver_workOn_rounds :
    (workOn files table dryRun root trails (rounds trails.length)).IsOver := by
  refine isOver_workOn fun number hlt => ?_
  rw [rounds, List.count_append, List.count_eq_one_of_mem List.nodup_range (List.mem_range.2 hlt)]

/-- What the work on a document comes to alone. -/
def settledOutcome (files : FileSystem) (table : PhraseTable) (dryRun : Bool) (root : Text)
    (trail : Trail) : Outcome :=
  ⟨trail, Path.joinAll root trail, settledResult files table dryRun (Path.joinAll root trail)⟩

/-- **A run comes to one outcome for each document, in the order of the documents**, in whatever
order the work on them has ended. -/
theorem translateTreeBy_of_isOver (options : TreeOptions) {schedule : Nat → List Nat}
    (hfound : discover files root options.extensions = .ok trails)
    (hover : (workOn files table options.dryRun root trails (schedule trails.length)).IsOver) :
    translateTreeBy schedule files table root options =
      .ok (List.zipWith (Outcome.of root) trails
          (workOn files table options.dryRun root trails (schedule trails.length)).finals,
        (workOn files table options.dryRun root trails (schedule trails.length)).files) := by
  have hlength := length_stages_workOn files table options.dryRun root trails
    (schedule trails.length)
  have hfinals := hover.length_finals.trans hlength
  have hresults := (recorded_workOn files table options.dryRun root trails
    (schedule trails.length)).results_perm hover
  rw [hlength] at hresults
  have hcollected := collect_perm List.nodup_range List.length_range
    (List.length_range.trans hfinals.symm) hresults
  rw [← zipIdx_map_swap] at hcollected
  rw [← inOrder_eq (nodup_discover hfound) (pairwise_precedes_discover hfound) hfinals.symm
    hcollected, translateTreeBy, hfound]
  rfl

/-- **The outcomes of a run do not depend on the schedule**, if the documents are different
files. -/
theorem translateTreeBy_eq (options : TreeOptions) {schedule : Nat → List Nat}
    (hfound : discover files root options.extensions = .ok trails)
    (hapart : files.Apart (trails.map (Path.joinAll root)))
    (hover : (workOn files table options.dryRun root trails (schedule trails.length)).IsOver) :
    translateTreeBy schedule files table root options =
      .ok (trails.map (settledOutcome files table options.dryRun root),
        (workOn files table options.dryRun root trails (schedule trails.length)).files) := by
  have htrack := onTrack_workOn files table options.dryRun root trails (schedule trails.length)
  rw [translateTreeBy_of_isOver options hfound hover,
    htrack.finals_eq_map hover (hapart.undisturbed table options.dryRun), List.map_map,
    List.zipWith_map_right, List.zipWith_self]
  rfl

/-! ### Runs without links -/

/-- What a run over a file system without links does to the documents at the ends of `trails`, which
start at `base`. -/
structure TreeEffect (files : FileSystem) (table : PhraseTable) (dryRun : Bool) (root : Text)
    (base : Location) (trails : List Trail) (outcomes : List Outcome) (final : FileSystem) :
    Prop where
  /-- There is one outcome for each document, in the order of the documents. -/
  map_trail : outcomes.map Outcome.trail = trails
  /-- It is about the path of the document. -/
  path_eq : ∀ outcome ∈ outcomes, outcome.path = Path.joinAll root outcome.trail
  /-- The document is a regular file. -/
  isFile : ∀ outcome ∈ outcomes, ∃ octets,
    files.get? (outcome.trail.reverse ++ base) = some (.file octets)
  /-- A document with a text is reported on, and gets its translation unless it is a dry run. If the
  text is to be rewritten, the document must not be read-only. -/
  of_text : ∀ outcome ∈ outcomes, Path.isTooLong outcome.path = false → ∀ text,
    files.get? (outcome.trail.reverse ++ base) = some (.file (Utf8.encode text)) →
      (Rewrites table dryRun text → outcome.trail.reverse ++ base ∉ files.readOnly) →
        outcome.result = .ok
          { substitutions := (table.translate text).substitutions
            phrasesFound := (table.translate text).phrasesFound
            written := decide ((table.translate text).text ≠ text ∧ dryRun = false) } ∧
        final.get? (outcome.trail.reverse ++ base) =
          some (.file (Utf8.encode (if dryRun then text else (table.translate text).text)))
  /-- A read-only document whose text is to be rewritten fails, and keeps its octets. -/
  of_readOnly : ∀ outcome ∈ outcomes, Path.isTooLong outcome.path = false → ∀ text,
    files.get? (outcome.trail.reverse ++ base) = some (.file (Utf8.encode text)) →
      Rewrites table dryRun text → outcome.trail.reverse ++ base ∈ files.readOnly →
        outcome.result = .error .permissionDenied ∧
          final.get? (outcome.trail.reverse ++ base) = some (.file (Utf8.encode text))
  /-- A document whose octets are no text fails, and keeps them. -/
  of_not_text : ∀ outcome ∈ outcomes, Path.isTooLong outcome.path = false → ∀ octets,
    files.get? (outcome.trail.reverse ++ base) = some (.file octets) →
      (∀ text, octets ≠ Utf8.encode text) →
        outcome.result = .error .notUtf8 ∧
          final.get? (outcome.trail.reverse ++ base) = some (.file octets)
  /-- A document whose path is too long fails, and keeps its octets. -/
  of_isTooLong : ∀ outcome ∈ outcomes, Path.isTooLong outcome.path = true →
    outcome.result = .error .nameTooLong ∧
      final.get? (outcome.trail.reverse ++ base) = files.get? (outcome.trail.reverse ++ base)
  /-- What is no document is left as it is. -/
  get?_eq : ∀ location, (∀ trail ∈ trails, location ≠ trail.reverse ++ base) →
    final.get? location = files.get? location
  /-- No file is made, and none is lost. -/
  isFile_iff : ∀ location, (∃ octets, final.get? location = some (.file octets)) ↔
    ∃ octets, files.get? location = some (.file octets)

variable {base : Location} {trail : Trail}

theorem apart_of_leadsFrom (hnodup : trails.Nodup)
    (hlead : ∀ trail ∈ trails, trail.LeadsFrom files root base) :
    files.Apart (trails.map (Path.joinAll root)) := by
  refine List.pairwise_map.2 (hnodup.imp_of_mem ?_)
  intro s t hs ht hne location hats hatt
  exact hne ((hlead s hs).eq_of_fileAt? (hlead t ht) hats hatt)

/-- The effect of a run whose documents lie where their trails lead. -/
theorem treeEffect_of_isOver (hnodup : trails.Nodup)
    (hlead : ∀ trail ∈ trails, trail.LeadsFrom files root base) {schedule : List Nat}
    (hover : (workOn files table dryRun root trails schedule).IsOver) :
    TreeEffect files table dryRun root base trails
      (trails.map (settledOutcome files table dryRun root))
      (workOn files table dryRun root trails schedule).files := by
  have htrack := onTrack_workOn files table dryRun root trails schedule
  have hread : ∀ trail ∈ trails,
      (workOn files table dryRun root trails schedule).files.read (Path.joinAll root trail) =
        settledRead files table dryRun (Path.joinAll root trail) := by
    intro trail htrail
    obtain ⟨number, hnumber⟩ := List.mem_iff_getElem?.1 (List.mem_map_of_mem htrail)
    exact htrack.read_eq_settledRead hover hnumber
      ((apart_of_leadsFrom hnodup hlead).undisturbed table dryRun number)
  have huntouched : ∀ location, (∀ trail ∈ trails,
      files.fileAt? (Path.joinAll root trail) = some location → location ≠ trail.reverse ++ base) →
      (workOn files table dryRun root trails schedule).files.get? location =
        files.get? location := by
    intro location hnone
    refine htrack.get?_eq location fun path hpath _ hat => ?_
    obtain ⟨trail, htrail, rfl⟩ := List.mem_map.1 hpath
    exact hnone trail htrail hat ((hlead trail htrail).location_eq hat)
  have hafter : ∀ trail ∈ trails, Path.isTooLong (Path.joinAll root trail) = false → ∀ octets,
      settledRead files table dryRun (Path.joinAll root trail) = .ok octets →
        (workOn files table dryRun root trails schedule).files.get? (trail.reverse ++ base) =
          some (.file octets) :=
    fun trail htrail hshort octets hsettled =>
      get?_of_read ((htrack.fileAt?_eq _).trans ((hlead trail htrail).fileAt?_of_short hshort))
        ((hread trail htrail).trans hsettled)
  refine ⟨?_, List.forall_mem_map.2 fun trail _ => rfl, List.forall_mem_map.2 ?_,
    List.forall_mem_map.2 ?_, List.forall_mem_map.2 ?_, List.forall_mem_map.2 ?_,
    List.forall_mem_map.2 ?_, ?_, htrack.isFile_iff⟩
  · rw [List.map_map]
    exact List.map_id _
  · intro trail htrail
    obtain ⟨octets, hget, -⟩ := hlead trail htrail
    exact ⟨octets, hget⟩
  · intro trail htrail hshort text hget hwritable
    have htext := readText_eq_ok_iff.2 ((hlead trail htrail).read_of_short hshort hget)
    have hallowed : ¬ files.IsRefused table dryRun (Path.joinAll root trail) := by
      rw [isRefused_iff htext, isReadOnly_iff ((hlead trail htrail).fileAt?_of_short hshort)]
      exact not_and.2 hwritable
    exact ⟨settledResult_of_text htext hallowed,
      hafter trail htrail hshort _ (settledRead_of_text htext hallowed)⟩
  · intro trail htrail hshort text hget hwrite hmem
    have hgiven := (hlead trail htrail).read_of_short hshort hget
    have hreadOnly := (isReadOnly_iff ((hlead trail htrail).fileAt?_of_short hshort)).2 hmem
    have hfails : files.FailsFor table dryRun (Path.joinAll root trail) .permissionDenied :=
      .inr ⟨rfl, ⟨text, readText_eq_ok_iff.2 hgiven, hwrite⟩, hreadOnly⟩
    exact ⟨settledResult_of_failsFor hfails, hafter trail htrail hshort _
      ((settledRead_of_not_isRewritten hfails.not_isRewritten).trans hgiven)⟩
  · intro trail htrail hshort octets hget hnone
    have hgiven := (hlead trail htrail).read_of_short hshort hget
    have hfails : files.FailsFor table dryRun (Path.joinAll root trail) .notUtf8 :=
      .inl (readText_of_not_text hgiven hnone)
    exact ⟨settledResult_of_failsFor hfails, hafter trail htrail hshort _
      ((settledRead_of_not_isRewritten hfails.not_isRewritten).trans hgiven)⟩
  · intro trail htrail hlong
    have htext := readText_of_error ((hlead trail htrail).read_of_isTooLong hlong)
    refine ⟨settledResult_of_error htext, huntouched _ fun other hother hat hsame => ?_⟩
    -- no path leads to a document whose own path is too long
    obtain rfl : trail = other := List.reverse_injective (List.append_cancel_right hsame)
    cases ((hlead trail htrail).fileAt?_of_isTooLong hlong).symm.trans hat
  · exact fun location hnone => huntouched location fun trail htrail _ => hnone trail htrail

/-- **The effect of a run over a file system without links**, whatever the schedule. Two steps for
each document are enough for the run to end. -/
theorem translateTreeBy_of_linkFree (hlinks : files.LinkFree) (table : PhraseTable)
    (options : TreeOptions) (hfound : discover files root options.extensions = .ok trails) :
    ∃ base entry, files.find .follow root = .ok (base, entry) ∧ ∀ schedule : List Nat,
      ((∀ number < trails.length, 2 ≤ schedule.count number) →
        (workOn files table options.dryRun root trails schedule).IsOver) ∧
      ((workOn files table options.dryRun root trails schedule).IsOver →
        ∃ outcomes final,
          translateTreeBy (fun _ => schedule) files table root options = .ok (outcomes, final) ∧
            TreeEffect files table options.dryRun root base trails outcomes final) := by
  obtain ⟨base, entry, hroot, hlead⟩ := exists_base_of_discover hlinks hfound
  have hnodup := nodup_discover hfound
  refine ⟨base, entry, hroot, fun schedule => ⟨isOver_workOn, fun hover => ?_⟩⟩
  exact ⟨_, _, translateTreeBy_eq options hfound (apart_of_leadsFrom hnodup hlead) hover,
    treeEffect_of_isOver hnodup hlead hover⟩

/-! ### Two pages

One of them has a text and the other one has not. The steps of the two are taken in turns.
-/

/-- The directory of the two pages. -/
def manual : FileName :=
  ⟨['d'], by decide⟩

/-- A page with a text. -/
def firstPage : FileName :=
  ⟨['a', '.', 'm', 'd'], by decide⟩

/-- A page whose octets are no text. -/
def secondPage : FileName :=
  ⟨['b', '.', 'm', 'd'], by decide⟩

/-- A file system with two pages in a directory. -/
def pages : FileSystem where
  entries := [([manual], .directory), ([firstPage, manual], .file (Utf8.encode ['J', 'a'])),
    ([secondPage, manual], .file [0xFF, 0xFE])]
  workingDirectory := []
  nodup := by decide

/-- A phrase table that changes the text of the first page. -/
def pagesTable : PhraseTable :=
  ⟨[⟨['J', 'a'], ['x']⟩]⟩

theorem linkFree_pages : pages.LinkFree :=
  linkFree_of_forall_entries fun location target => by simp [pages]

theorem discover_pages {path : Text} (h : pages.find .follow path = .ok ([manual], .directory))
    (hshort : Path.isTooLong path = false) :
    discover pages path defaultExtensions = .ok [[firstPage], [secondPage]] := by
  have hfile : pages.isFile path = false := by
    rw [isFile, h]
  have hall : walkRoot pages path = .ok [[firstPage], [secondPage]] := by
    rw [walkRoot, find_keep linkFree_pages, h]
    change descend pages _ 3 [] _ = _
    rw [descend, if_neg (Bool.eq_false_iff.1 hshort)]
    rfl
  exact discover_of_pairwise hfile hall (by decide)

theorem treeEffect_of_pages :
    pages.LinkFree ∧ discover pages ['d'] defaultExtensions = .ok [[firstPage], [secondPage]] ∧
      ∃ outcomes final,
        translateTreeBy (fun _ => [1, 0, 1, 0]) pages pagesTable ['d'] {} =
          .ok (outcomes, final) ∧
        TreeEffect pages pagesTable false ['d'] [manual]
          [[firstPage], [secondPage]] outcomes final := by
  have hfind : pages.find .follow ['d'] = .ok ([manual], .directory) := by rfl
  have hfound := discover_pages hfind (by decide)
  refine ⟨linkFree_pages, hfound, ?_⟩
  obtain ⟨base, entry, hroot, hrun⟩ := translateTreeBy_of_linkFree linkFree_pages
    pagesTable {} hfound
  cases hfind.symm.trans hroot
  obtain ⟨hover, heffect⟩ := hrun [1, 0, 1, 0]
  exact heffect (hover (by decide))

/-! ### Paths that are too long -/

/-- The path that stays where it is a number of times. -/
def dots : Nat → Text
  | 0 => []
  | n + 1 => '.' :: '/' :: dots n

theorem steps_dots (n : Nat) (path : Text) :
    Path.steps (dots n ++ path) = List.replicate n .here ++ Path.steps path := by
  induction n with
  | zero => rfl
  | succ n ih => exact (Path.steps_append ['.'] _).trans (congrArg (Step.here :: ·) ih)

theorem size_dots (n : Nat) (path : Text) :
    Utf8.size (dots n ++ path) = 2 * n + Utf8.size path := by
  induction n with
  | zero => exact (Nat.zero_add _).symm
  | succ n ih =>
    change 1 + (1 + Utf8.size (dots n ++ path)) = _
    omega

theorem nul_not_mem_dots {path : Text} (h : '\x00' ∉ path) (n : Nat) :
    '\x00' ∉ dots n ++ path := by
  induction n with
  | zero => exact h
  | succ n ih => simp [dots, ih]

theorem resolveFrom_replicate_here {links : Nat} {directory : Location} (n : Nat)
    (steps : List Step) :
    resolveFrom files .follow links directory (List.replicate n .here ++ steps) =
      resolveFrom files .follow links directory steps := by
  induction n with
  | zero => rfl
  | succ n ih => exact (resolveFrom_move rfl).trans ih

/-- Staying leads nowhere else, as long as the path can be followed. -/
theorem find_dots (n : Nat) {path : Text} {entry : Entry}
    (h : files.find .follow path = .ok (base, entry)) (hrelative : Path.isAbsolute path = false)
    (hshort : Path.isTooLong (dots n ++ path) = false) :
    files.find .follow (dots n ++ path) = .ok (base, entry) := by
  obtain ⟨⟨hnul, hne, -⟩, hsteps⟩ := resolve_eq_ok_iff.1 (resolve_of_find h)
  have hrelative' : Path.isAbsolute (dots n ++ path) = false := by
    cases n with
    | zero => exact hrelative
    | succ n => rfl
  have hplace : files.resolve .follow (dots n ++ path) = .ok (.present base entry) := by
    refine resolve_eq_ok_iff.2 ⟨⟨nul_not_mem_dots hnul n, ?_, hshort⟩, ?_⟩
    · exact List.append_ne_nil_of_right_ne_nil _ hne
    · rw [steps_dots, resolveFrom_replicate_here, startOf, hrelative', ← hrelative]
      exact hsteps
  rw [find, hplace]

theorem size_joinAll_dots (n : Nat) (name : FileName) :
    Utf8.size (Path.joinAll (dots n ++ ['d']) [name]) =
      2 * n + Utf8.size ('d' :: '/' :: name.text) := by
  have hjoin : Path.joinAll (dots n ++ ['d']) [name] = dots n ++ 'd' :: '/' :: name.text := by
    rw [Path.joinAll, List.foldl_cons, List.foldl_nil, Path.join, if_neg (by simp)]
    exact List.append_assoc _ _ _
  rw [hjoin, size_dots]

/-- A root from which the directory of the pages can be listed, while the paths of the pages are too
long. -/
def longRoot : Text :=
  dots 2046 ++ ['d']

theorem isTooLong_longRoot {trail : Trail} (h : trail ∈ [[firstPage], [secondPage]]) :
    Path.isTooLong (Path.joinAll longRoot trail) = true := by
  have hsize : Utf8.size (Path.joinAll longRoot trail) = 2 * 2046 + 6 := by
    rcases List.mem_pair.1 h with rfl | rfl
    · exact size_joinAll_dots 2046 firstPage
    · exact size_joinAll_dots 2046 secondPage
  rw [Path.isTooLong, hsize]
  rfl

/-- **A document whose path is too long is not translated**, even though it was found. -/
theorem outcomes_of_longRoot :
    pages.LinkFree ∧ discover pages longRoot defaultExtensions = .ok [[firstPage], [secondPage]] ∧
      pages.get? [firstPage, manual] = some (.file (Utf8.encode ['J', 'a'])) ∧
      ∃ final, translateTree pages pagesTable longRoot {} =
        .ok ([[firstPage], [secondPage]].map fun trail =>
          ⟨trail, Path.joinAll longRoot trail, .error .nameTooLong⟩, final) := by
  have hshort : Path.isTooLong longRoot = false := by
    rw [Path.isTooLong, longRoot, size_dots]
    rfl
  have hfind : pages.find .follow longRoot = .ok ([manual], .directory) :=
    find_dots 2046 (by rfl) (by rfl) hshort
  have hfound := discover_pages hfind hshort
  obtain ⟨base, entry, -, hlead⟩ := exists_base_of_discover linkFree_pages hfound
  have hapart := apart_of_leadsFrom (nodup_discover hfound) hlead
  have hsettled : [[firstPage], [secondPage]].map
      (settledOutcome pages pagesTable false longRoot) =
        [[firstPage], [secondPage]].map fun trail =>
          ⟨trail, Path.joinAll longRoot trail, .error .nameTooLong⟩ := by
    refine List.map_congr_left fun trail htrail => ?_
    have hread := (hlead trail htrail).read_of_isTooLong (isTooLong_longRoot htrail)
    exact congrArg _ (settledResult_of_error (readText_of_error hread))
  rw [← hsettled]
  exact ⟨linkFree_pages, hfound, rfl, _, translateTreeBy_eq {} hfound hapart isOver_workOn_rounds⟩

end Phrasebook
