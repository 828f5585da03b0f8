import Phrasebook.Proofs.Discovery
/-!
# Where the path of a document leads

The path of a document is the root continued by the names of a trail. It asks for the steps of the
root and then for those names, so without links it leads to the document that the trail was found
for, unless it is too long to be followed.

## Main definitions

* `Trail.LeadsFrom`: where the names of a trail and the path of its document lead.

## Main results

* `FileSystem.resolveFrom_joinAll`: the steps of the path of a document.
* `FileSystem.resolveFrom_append`: without links, steps after those of a directory start there.
* `exists_base_of_discover`: without links, the documents lie below where the root leads.
-/

namespace Phrasebook

open FileSystem

/-! ### The steps of a path -/

theorem Step.ofPart_text (name : FileName) : Step.ofPart name.text = .name name := by
  obtain ⟨text, hvalid⟩ := name
  rw [Step.ofPart, if_neg hvalid.1, if_neg hvalid.2.2.2.2.1, dif_pos hvalid]

namespace Path

theorem parts_of_not_mem {part : Text} (h : '/' ∉ part) : parts part = [part] := by
  induction part with
  | nil => rfl
  | cons c part ih =>
    rw [List.mem_cons, not_or] at h
    rw [parts, if_neg (Ne.symm h.1), ih h.2]

theorem parts_ne_nil (path : Text) : parts path ≠ [] := by
  induction path with
  | nil => exact List.cons_ne_nil _ _
  | cons c path ih =>
    obtain ⟨part, others, hparts⟩ := List.exists_cons_of_ne_nil ih
    rw [parts, hparts]
    split <;> exact List.cons_ne_nil _ _

theorem parts_append (front back : Text) :
    parts (front ++ '/' :: back) = parts front ++ parts back := by
  induction front with
  | nil => rfl
  | cons c front ih =>
    obtain ⟨part, others, hparts⟩ := List.exists_cons_of_ne_nil (parts_ne_nil front)
    rw [List.cons_append, parts, parts, ih, hparts]
    split <;> rfl

theorem steps_append (front back : Text) :
    steps (front ++ '/' :: back) = steps front ++ steps back := by
  rw [steps, parts_append, List.map_append]
  rfl

theorem steps_text (name : FileName) : steps name.text = [.name name] := by
  rw [steps, parts_of_not_mem name.valid.2.1, List.map_singleton, Step.ofPart_text]

variable {path : Text} {names : List FileName}

/-- The steps of a path that is continued by a name. A slash at the end of the path is the one that
parts the name from it. -/
theorem steps_join (hpath : path ≠ []) (name : FileName) :
    steps (join path name.text) = steps path ++ [.name name] ∨
      ∃ front, steps path = front ++ [.slash] ∧
        steps (join path name.text) = front ++ [.name name] := by
  by_cases hslash : path.getLast? = some '/'
  · obtain ⟨front, rfl⟩ := List.getLast?_eq_some_iff.1 hslash
    refine .inr ⟨steps front, steps_append front [], ?_⟩
    rw [join, if_pos (.inr hslash), List.append_assoc, List.singleton_append, steps_append,
      steps_text]
  · refine .inl ?_
    rw [join, if_neg (not_or.2 ⟨hpath, hslash⟩), steps_append, steps_text]

theorem join_ne_nil (hpath : path ≠ []) (name : Text) : join path name ≠ [] := by
  rw [join]
  split <;> simp [hpath]

theorem isAbsolute_join (hpath : path ≠ []) (name : Text) :
    isAbsolute (join path name) = isAbsolute path := by
  obtain ⟨c, rest, rfl⟩ := List.exists_cons_of_ne_nil hpath
  rw [join]
  split <;> rfl

theorem nul_notMem_join (hpath : '\x00' ∉ path) (name : FileName) :
    '\x00' ∉ join path name.text := by
  have hname := name.valid.2.2.1
  rw [join]
  split <;> simp [hpath, hname]

theorem joinAll_ne_nil (hpath : path ≠ []) (names : List FileName) : joinAll path names ≠ [] := by
  induction names generalizing path with
  | nil => exact hpath
  | cons name names ih => exact ih (join_ne_nil hpath name.text)

theorem isAbsolute_joinAll (hpath : path ≠ []) (names : List FileName) :
    isAbsolute (joinAll path names) = isAbsolute path := by
  induction names generalizing path with
  | nil => rfl
  | cons name names ih => exact (ih (join_ne_nil hpath _)).trans (isAbsolute_join hpath _)

theorem nul_notMem_joinAll (hpath : '\x00' ∉ path) (names : List FileName) :
    '\x00' ∉ joinAll path names := by
  induction names generalizing path with
  | nil => exact hpath
  | cons name names ih => exact ih (nul_notMem_join hpath name)

end Path

namespace FileSystem

variable {files : FileSystem} {links : Nat} {directory base : Location} {steps rest : List Step}

/-- A slash that is not at the end of a path counts for nothing. -/
theorem resolveFrom_slash_append (hrest : rest ≠ []) :
    resolveFrom files .follow links directory (steps ++ .slash :: rest) =
      resolveFrom files .follow links directory (steps ++ rest) := by
  induction links, directory, steps using step_induction with
  | nil links directory => exact resolveFrom_move rfl
  | move links directory step next steps hmove ih =>
    rw [List.cons_append, List.cons_append, resolveFrom_move hmove, resolveFrom_move hmove, ih]
  | tooLong links directory steps =>
    rw [List.cons_append, List.cons_append, resolveFrom_tooLong, resolveFrom_tooLong]
    rfl
  | name links directory name steps ih ihlinks =>
    have hslash : steps ++ .slash :: rest ≠ [] := by simp
    have hnone : steps ++ rest ≠ [] := by simp [hrest]
    rw [List.cons_append, List.cons_append, resolveFrom_name, resolveFrom_name]
    simp only [refusesSlashes_follow, hslash, hnone, false_and, if_false]
    cases files.get? (name :: directory) with
    | none => rfl
    | some entry =>
      cases entry with
      | file octets => rfl
      | directory => rw [ih]
      | link target =>
        cases links with
        | zero => rfl
        | succ links =>
          have hmoved := ihlinks links rfl (startOf directory target) (Path.steps target ++ steps)
          rw [List.append_assoc, List.append_assoc] at hmoved
          simpa using hmoved

/-- A path that is continued by a name asks for that name after its own steps. -/
theorem resolveFrom_join {path : Text} (hpath : path ≠ []) (name : FileName) :
    resolveFrom files .follow links directory (Path.steps (Path.join path name.text) ++ rest) =
      resolveFrom files .follow links directory (Path.steps path ++ .name name :: rest) := by
  rcases Path.steps_join hpath name with hjoin | ⟨front, hsteps, hjoin⟩
  · rw [hjoin, List.append_assoc, List.singleton_append]
  · rw [hjoin, hsteps, List.append_assoc, List.append_assoc, List.singleton_append,
      List.singleton_append, resolveFrom_slash_append (List.cons_ne_nil _ _)]

/-- **The path of a document asks for the steps of the root, and then for the names of its
trail.** -/
theorem resolveFrom_joinAll {root : Text} (hroot : root ≠ []) (names : List FileName) :
    resolveFrom files .follow links directory (Path.steps (Path.joinAll root names)) =
      resolveFrom files .follow links directory (Path.steps root ++ names.map .name) := by
  induction names generalizing root with
  | nil => rw [List.map_nil, List.append_nil]; rfl
  | cons name names ih =>
    exact (ih (Path.join_ne_nil hroot _)).trans (resolveFrom_join hroot name)

/-- **Without links, steps after those that lead to a directory start there.** -/
theorem resolveFrom_append (hlinks : files.LinkFree)
    (h : resolveFrom files .follow links directory steps = .ok (.present base .directory)) :
    resolveFrom files .follow links directory (steps ++ rest) =
      resolveFrom files .follow links base rest := by
  induction links, directory, steps using step_induction with
  | nil links directory =>
    rw [resolveFrom_nil] at h
    cases h
    rfl
  | move links directory step next steps hmove ih =>
    rw [List.cons_append, resolveFrom_move hmove]
    exact ih (resolveFrom_move hmove ▸ h)
  | tooLong links directory steps =>
    rw [resolveFrom_tooLong] at h
    cases h
  | name links directory name steps ih _ =>
    rw [List.cons_append, resolveFrom_name]
    rw [resolveFrom_name] at h
    simp only [refusesSlashes_follow, Bool.false_eq_true, if_false] at h ⊢
    cases hget : files.get? (name :: directory) with
    | none =>
      simp only [hget] at h
      split at h <;> cases h
    | some entry =>
      simp only [hget] at h ⊢
      cases entry with
      | file octets =>
        simp only at h
        split at h <;> cases h
      | directory => exact ih h
      | link target => exact absurd hget (hlinks _ _)

variable {files : FileSystem} {root : Text} {names : List FileName} {location : Location}

theorem resolve_of_find {ending : Ending} {entry : Entry}
    (h : files.find ending root = .ok (base, entry)) :
    files.resolve ending root = .ok (.present base entry) := by
  rw [find] at h
  split at h
  · cases h
  · cases h
  · rename_i hplace
    cases h
    exact hplace

/-- The path of a document that is too long cannot be followed. -/
theorem resolve_joinAll_of_isTooLong {place : Place} {ending : Ending}
    (hroot : files.resolve .follow root = .ok place)
    (hlong : Path.isTooLong (Path.joinAll root names) = true) :
    files.resolve ending (Path.joinAll root names) = .error .nameTooLong := by
  obtain ⟨⟨hnul, hne, -⟩, -⟩ := resolve_eq_ok_iff.1 hroot
  rw [resolve, if_neg (Path.nul_notMem_joinAll hnul names), if_neg (Path.joinAll_ne_nil hne names),
    if_pos hlong]

/-- Without links, the path of a document leads from the root down the names of its trail. -/
theorem resolve_joinAll (hlinks : files.LinkFree)
    (hroot : files.resolve .follow root = .ok (.present base .directory))
    (hshort : Path.isTooLong (Path.joinAll root names) = false) :
    files.resolve .follow (Path.joinAll root names) =
      resolveFrom files .follow maxLinks base (names.map .name) := by
  obtain ⟨⟨hnul, hne, -⟩, hsteps⟩ := resolve_eq_ok_iff.1 hroot
  rw [resolve, if_neg (Path.nul_notMem_joinAll hnul names), if_neg (Path.joinAll_ne_nil hne names),
    if_neg (Bool.eq_false_iff.1 hshort), startOf, Path.isAbsolute_joinAll hne,
    resolveFrom_joinAll hne]
  exact resolveFrom_append hlinks hsteps

end FileSystem

/-! ### The documents below a root -/

variable {files : FileSystem} {root : Text} {extensions : List Text} {trails : List Trail}

/-- Without links, it does not matter whether a link at the end would be followed. -/
theorem FileSystem.find_keep (hlinks : files.LinkFree) (path : Text) :
    files.find .keep path = files.find .follow path := by
  rcases find_keep_cases path with ⟨l, target, hget, -⟩ | heq
  · exact absurd hget (hlinks l target)
  · exact heq

theorem walk_of_linkFree (hlinks : files.LinkFree) {links : Nat} {stack : List Visit}
    {directory : Visit} (h : walk files links stack directory = .ok trails) {trail : Trail}
    (htrail : trail ∈ trails) :
    ∃ names octets, trail = directory.trail ++ names ∧
      resolveFrom files .follow maxLinks directory.location (names.map .name) =
        .ok (.present (names.reverse ++ directory.location) (.file octets)) := by
  cases links with
  | zero =>
    cases h
    cases htrail
  | succ links => exact descend_of_linkFree hlinks h htrail

/-- Without links, a root that is no file leads somewhere, and the trails lead to files from
there. -/
theorem walkRoot_of_linkFree (hlinks : files.LinkFree) (hfile : files.isFile root = false)
    (h : walkRoot files root = .ok trails) :
    ∃ base entry, files.find .follow root = .ok (base, entry) ∧
      ∀ trail ∈ trails, entry = .directory ∧ ∃ octets,
        resolveFrom files .follow maxLinks base (trail.map .name) =
          .ok (.present (trail.reverse ++ base) (.file octets)) := by
  rw [walkRoot, find_keep hlinks] at h
  rw [isFile] at hfile
  cases hfind : files.find .follow root with
  | error cause =>
    rw [hfind] at h
    cases h
  | ok found =>
    obtain ⟨base, entry⟩ := found
    rw [hfind] at h hfile
    refine ⟨base, entry, rfl, ?_⟩
    cases entry with
    | file octets => cases hfile
    | link target =>
      cases h
      intro trail htrail
      cases htrail
    | directory =>
      intro trail htrail
      obtain ⟨names, octets, rfl, hnames⟩ := walk_of_linkFree hlinks h htrail
      exact ⟨rfl, octets, hnames⟩

/-- The names of a trail lead from `base` to a regular file, and so does the path that continues the
root by these names, unless it is too long. -/
def Trail.LeadsFrom (files : FileSystem) (root : Text) (base : Location) (trail : Trail) : Prop :=
  ∃ octets, files.get? (trail.reverse ++ base) = some (.file octets) ∧
    files.resolve .follow (Path.joinAll root trail) =
      if Path.isTooLong (Path.joinAll root trail) then .error .nameTooLong
      else .ok (.present (trail.reverse ++ base) (.file octets))

/-- **Without links, the documents lie below where the root leads.** -/
theorem exists_base_of_discover (hlinks : files.LinkFree)
    (h : discover files root extensions = .ok trails) :
    ∃ base entry, files.find .follow root = .ok (base, entry) ∧
      ∀ trail ∈ trails, trail.LeadsFrom files root base := by
  rcases discover_eq_ok h with ⟨hfile, rfl⟩ | ⟨hfile, all, hall, rfl⟩
  · rw [isFile] at hfile
    split at hfile
    · rename_i base octets hfind
      have hroot := resolve_of_find hfind
      refine ⟨base, .file octets, hfind, fun trail htrail => ?_⟩
      cases List.mem_singleton.1 htrail
      refine ⟨octets, get?_of_resolve hroot, ?_⟩
      have hshort : Path.isTooLong (Path.joinAll root []) = false :=
        (resolve_eq_ok_iff.1 hroot).1.2.2
      rw [if_neg (Bool.eq_false_iff.1 hshort)]
      exact hroot
    · cases hfile
  · obtain ⟨base, entry, hfind, hdown⟩ := walkRoot_of_linkFree hlinks hfile hall
    refine ⟨base, entry, hfind, fun trail htrail => ?_⟩
    obtain ⟨rfl, octets, hnames⟩ :=
      hdown trail (List.mem_filter.1 (List.mem_mergeSort.1 htrail)).1
    have hroot := resolve_of_find hfind
    refine ⟨octets, get?_of_resolveFrom hnames, ?_⟩
    split
    · rename_i hlong
      exact resolve_joinAll_of_isTooLong hroot hlong
    · rename_i hshort
      rw [resolve_joinAll hlinks hroot (Bool.eq_false_iff.2 hshort), hnames]

namespace Trail.LeadsFrom

variable {base location : Location} {trail : Trail}

theorem location_eq (h : trail.LeadsFrom files root base)
    (hat : files.fileAt? (Path.joinAll root trail) = some location) :
    location = trail.reverse ++ base := by
  obtain ⟨octets, -, hresolve⟩ := h
  obtain ⟨found, hplace⟩ := fileAt?_eq_some_iff.1 hat
  rw [hplace] at hresolve
  split at hresolve <;> cases hresolve
  rfl

/-- Paths to one file belong to one trail. -/
theorem eq_of_fileAt? {other : Trail} (h : trail.LeadsFrom files root base)
    (hother : other.LeadsFrom files root base)
    (hat : files.fileAt? (Path.joinAll root trail) = some location)
    (hatOther : files.fileAt? (Path.joinAll root other) = some location) : trail = other := by
  have hsame := (h.location_eq hat).symm.trans (hother.location_eq hatOther)
  exact List.reverse_injective (List.append_cancel_right hsame)

theorem fileAt?_of_short (h : trail.LeadsFrom files root base)
    (hshort : Path.isTooLong (Path.joinAll root trail) = false) :
    files.fileAt? (Path.joinAll root trail) = some (trail.reverse ++ base) := by
  obtain ⟨octets, -, hresolve⟩ := h
  rw [hshort, if_neg Bool.false_ne_true] at hresolve
  exact fileAt?_eq_some_iff.2 ⟨octets, hresolve⟩

theorem read_of_short (h : trail.LeadsFrom files root base)
    (hshort : Path.isTooLong (Path.joinAll root trail) = false) {octets : List UInt8}
    (hget : files.get? (trail.reverse ++ base) = some (.file octets)) :
    files.read (Path.joinAll root trail) = .ok octets :=
  read_eq_ok_iff.2 ⟨_, h.fileAt?_of_short hshort, hget⟩

theorem fileAt?_of_isTooLong (h : trail.LeadsFrom files root base)
    (hlong : Path.isTooLong (Path.joinAll root trail) = true) :
    files.fileAt? (Path.joinAll root trail) = none := by
  obtain ⟨octets, -, hresolve⟩ := h
  rw [fileAt?, find, hresolve, if_pos hlong]

theorem read_of_isTooLong (h : trail.LeadsFrom files root base)
    (hlong : Path.isTooLong (Path.joinAll root trail) = true) :
    files.read (Path.joinAll root trail) = .error .nameTooLong := by
  obtain ⟨octets, -, hresolve⟩ := h
  rw [FileSystem.read, find, hresolve, if_pos hlong]

end Trail.LeadsFrom

end Phrasebook
