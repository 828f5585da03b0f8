import Phrasebook.FileSystem.Access
import Phrasebook.Proofs.Decoding
/-!
# Reading after writing

A write to a regular file changes the octets of that file. It changes no name, no directory and no
link, so every path leads where it led before. A path that leads to a regular file can be written,
whatever links it goes through, unless the file is read-only; and what is read afterwards is what
was written.

## Main definitions

* `Step.next?`: where a step leads that looks at no entry.
* `FileSystem.fileAt?`: the location of the regular file that a path leads to.
* `FileSystem.IsReadOnly`: the path leads to a regular file that cannot be written.

## Main results

* `FileSystem.find_keep_cases`: what is found if a link at the end of a path is not followed.
* `FileSystem.resolveFrom_set`, `FileSystem.fileAt?_set`: paths lead where they led before a write.
* `FileSystem.write_of_fileAt?`: writing to a file puts the octets at its location, or is refused.
* `FileSystem.read_set`: what a path reads after a write.

## Implementation notes

A path is followed by recursion on its steps, and on the number of links that are left wherever a
link stands. `FileSystem.step_induction` follows both; only a step to a name looks at the entries of
the file system.
-/

namespace Phrasebook

/-- Where a step leads from a directory, if it looks at no entry. -/
def Step.next? (directory : Location) : Step → Option Location
  | .slash | .here => some directory
  | .up => some directory.tail
  | .name _ | .tooLong => none

namespace FileSystem

variable {files : FileSystem} {ending : Ending} {links : Nat} {directory next : Location}
  {step : Step} {rest : List Step}

/-! ### One step of a path -/

/-- What becomes of a path whose next step is a name. -/
theorem resolveFrom_name (name : FileName) :
    resolveFrom files ending links directory (.name name :: rest) =
      if refusesSlashes ending rest then .error .isADirectory
      else
        match files.get? (name :: directory) with
        | none => if rest = [] then .ok (.vacant (name :: directory)) else .error .notFound
        | some .directory => resolveFrom files ending links (name :: directory) rest
        | some (.file octets) =>
          if rest = [] then .ok (.present (name :: directory) (.file octets))
          else .error .notADirectory
        | some (.link target) =>
          if rest = [] ∧ ending = .keep then .ok (.present (name :: directory) (.link target))
          else
            match links with
            | 0 => .error .tooManyLinks
            | links + 1 =>
              resolveFrom files ending links (startOf directory target)
                (Path.steps target ++ rest) := by
  cases links <;> rfl

theorem resolveFrom_nil :
    resolveFrom files ending links directory [] = .ok (.present directory .directory) := by
  cases links <;> rfl

theorem resolveFrom_move (h : step.next? directory = some next) :
    resolveFrom files ending links directory (step :: rest) =
      resolveFrom files ending links next rest := by
  cases step <;> cases h <;> cases links <;> rfl

theorem resolveFrom_tooLong :
    resolveFrom files ending links directory (.tooLong :: rest) =
      .error (if refusesSlashes ending rest then .isADirectory else .nameTooLong) := by
  cases links <;> rfl

theorem refusesSlashes_follow (rest : List Step) : refusesSlashes .follow rest = false :=
  rfl

/-- Induction on the way of a path: on the steps that remain, and on the number of links that may
still be followed. -/
@[elab_as_elim]
theorem step_induction {motive : Nat → Location → List Step → Prop}
    (nil : ∀ links directory, motive links directory [])
    (move : ∀ links directory step next rest, step.next? directory = some next →
      motive links next rest → motive links directory (step :: rest))
    (tooLong : ∀ links directory rest, motive links directory (.tooLong :: rest))
    (name : ∀ links directory name rest, motive links (name :: directory) rest →
      (∀ fewer, links = fewer + 1 → ∀ next steps, motive fewer next steps) →
        motive links directory (.name name :: rest))
    (links : Nat) (directory : Location) (steps : List Step) : motive links directory steps := by
  induction links using Nat.strongRecOn generalizing directory steps with
  | ind links ihlinks =>
    induction steps generalizing directory with
    | nil => exact nil links directory
    | cons step rest ih =>
      cases step with
      | slash => exact move _ _ _ _ _ rfl (ih directory)
      | here => exact move _ _ _ _ _ rfl (ih directory)
      | up => exact move _ _ _ _ _ rfl (ih directory.tail)
      | tooLong => exact tooLong _ _ _
      | name entry =>
        refine name _ _ _ _ (ih (entry :: directory)) ?_
        rintro fewer rfl
        exact ihlinks fewer (Nat.lt_succ_self fewer)

/-! ### Paths that lead to a file -/

variable {location : Location} {octets : List UInt8}

/-- The file that a path leads to stands at its location. -/
theorem get?_of_resolveFrom {steps : List Step}
    (h : resolveFrom files ending links directory steps = .ok (.present location (.file octets))) :
    files.get? location = some (.file octets) := by
  induction links, directory, steps using step_induction with
  | nil links directory =>
    rw [resolveFrom_nil] at h
    cases h
  | move links directory step next rest hmove ih => exact ih (resolveFrom_move hmove ▸ h)
  | tooLong links directory rest =>
    rw [resolveFrom_tooLong] at h
    cases h
  | name links directory name rest ih ihlinks =>
    rw [resolveFrom_name] at h
    split at h
    · cases h
    split at h
    · split at h <;> cases h
    · exact ih h
    · rename_i hget
      split at h
      · cases h
        exact hget
      · cases h
    · split at h
      · cases h
      · split at h
        · cases h
        · exact ihlinks _ rfl _ _ h

/-- A path leads somewhere if it can be followed at all and its steps lead there. -/
theorem resolve_eq_ok_iff {path : Text} {place : Place} :
    files.resolve ending path = .ok place ↔
      ('\x00' ∉ path ∧ path ≠ [] ∧ Path.isTooLong path = false) ∧
        resolveFrom files ending maxLinks (startOf files.workingDirectory path) (Path.steps path) =
          .ok place := by
  rw [resolve]
  split
  · simp [*]
  split
  · simp [*]
  split
  · simp [*]
  · simp [*]

theorem get?_of_resolve {path : Text}
    (h : files.resolve ending path = .ok (.present location (.file octets))) :
    files.get? location = some (.file octets) :=
  get?_of_resolveFrom (resolve_eq_ok_iff.1 h).2

/-- A path that ends in a slash leads to no file. -/
theorem resolveFrom_ne_file_of_slash {steps : List Step} (hslash : [.slash] <:+ steps) :
    resolveFrom files .follow links directory steps ≠ .ok (.present location (.file octets)) := by
  induction links, directory, steps using step_induction with
  | nil links directory => cases List.suffix_nil.1 hslash
  | move links directory step next rest hmove ih =>
    rw [resolveFrom_move hmove]
    rcases List.suffix_cons_iff.1 hslash with heq | hrest
    · cases heq
      rw [resolveFrom_nil]
      exact fun h => nomatch h
    · exact ih hrest
  | tooLong links directory rest =>
    rw [resolveFrom_tooLong]
    exact fun h => nomatch h
  | name links directory name rest ih ihlinks =>
    intro h
    have hrest : [.slash] <:+ rest := (List.suffix_cons_iff.1 hslash).resolve_left (by simp)
    have hne : rest ≠ [] := by
      rintro rfl
      cases List.suffix_nil.1 hrest
    rw [resolveFrom_name] at h
    simp only [hne, if_false, false_and] at h
    split at h
    · cases h
    split at h
    · cases h
    · exact ih hrest h
    · cases h
    · split at h
      · cases h
      · exact ihlinks _ rfl _ _ (hrest.trans (List.suffix_append _ _)) h

/-- A path that leads to a file leads there also for a write. -/
theorem resolveFrom_create {steps : List Step}
    (h : resolveFrom files .follow links directory steps = .ok (.present location (.file octets))) :
    resolveFrom files .create links directory steps = .ok (.present location (.file octets)) := by
  induction links, directory, steps using step_induction with
  | nil links directory =>
    rw [resolveFrom_nil] at h
    cases h
  | move links directory step next rest hmove ih =>
    rw [resolveFrom_move hmove] at h ⊢
    exact ih h
  | tooLong links directory rest =>
    rw [resolveFrom_tooLong] at h
    cases h
  | name links directory name rest ih ihlinks =>
    have hallowed : ¬ refusesSlashes .create rest = true := by
      intro hrefused
      simp only [refusesSlashes, Bool.and_eq_true, decide_eq_true_eq, List.all_eq_true] at hrefused
      obtain ⟨⟨-, hne⟩, hall⟩ := hrefused
      have hlast : rest.getLast hne = .slash := hall _ (List.getLast_mem hne)
      have hslash : [.slash] <:+ rest :=
        ⟨rest.dropLast, by rw [← hlast, List.dropLast_concat_getLast]⟩
      exact resolveFrom_ne_file_of_slash (hslash.trans (List.suffix_cons _ _)) h
    rw [resolveFrom_name] at h ⊢
    rw [if_neg hallowed]
    split at h
    · cases h
    split at h
    · split at h <;> cases h
    · exact ih h
    · exact h
    · split at h
      · rename_i hkeep
        cases hkeep.2
      · rw [if_neg (fun hkeep => nomatch hkeep.2)]
        split at h
        · cases h
        · exact ihlinks _ rfl _ _ h

/-! ### A link at the end of a path -/

/-- Whether a link at the end is followed matters only for a path that leads to one. -/
theorem resolveFrom_keep_cases (links : Nat) (directory : Location) (steps : List Step) :
    (∃ l target, files.get? l = some (.link target) ∧
      resolveFrom files .keep links directory steps = .ok (.present l (.link target))) ∨
      resolveFrom files .keep links directory steps =
        resolveFrom files .follow links directory steps := by
  induction links, directory, steps using step_induction with
  | nil links directory =>
    rw [resolveFrom_nil, resolveFrom_nil]
    exact .inr rfl
  | move links directory step next rest hmove ih =>
    rw [resolveFrom_move hmove, resolveFrom_move hmove]
    exact ih
  | tooLong links directory rest =>
    rw [resolveFrom_tooLong, resolveFrom_tooLong]
    exact .inr rfl
  | name links directory name rest ih ihlinks =>
    have hkeep : refusesSlashes .keep rest = false := rfl
    rw [resolveFrom_name, resolveFrom_name, hkeep, refusesSlashes_follow,
      if_neg Bool.false_ne_true, if_neg Bool.false_ne_true]
    cases hget : files.get? (name :: directory) with
    | none => exact .inr rfl
    | some entry =>
      cases entry with
      | file octets => exact .inr rfl
      | directory => exact ih
      | link target =>
        by_cases hrest : rest = []
        · exact .inl ⟨_, _, hget, if_pos ⟨hrest, rfl⟩⟩
        · simp only [hrest, false_and, if_false]
          cases links with
          | zero => exact .inr rfl
          | succ links => exact ihlinks links rfl _ _

theorem resolve_keep_cases (path : Text) :
    (∃ l target, files.get? l = some (.link target) ∧
      files.resolve .keep path = .ok (.present l (.link target))) ∨
      files.resolve .keep path = files.resolve .follow path := by
  rw [resolve, resolve]
  split
  · exact .inr rfl
  split
  · exact .inr rfl
  split
  · exact .inr rfl
  exact resolveFrom_keep_cases _ _ _

theorem find_keep_cases (path : Text) :
    (∃ l target, files.get? l = some (.link target) ∧
      files.find .keep path = .ok (l, .link target)) ∨
      files.find .keep path = files.find .follow path := by
  rw [find, find]
  rcases resolve_keep_cases path with ⟨l, target, hget, hlink⟩ | heq
  · rw [hlink]
    exact .inl ⟨l, target, hget, rfl⟩
  · rw [heq]
    exact .inr rfl

/-! ### Paths after a write -/

end FileSystem

/-- A place after the file at a location has got new octets. -/
def Place.rewritten (location : Location) (octets : List UInt8) : Place → Place
  | .present l (.file old) => .present l (.file (if l = location then octets else old))
  | place => place

namespace FileSystem

variable {files : FileSystem} {ending : Ending} {links : Nat} {directory location : Location}
  {old octets : List UInt8}

/-- **A write moves nothing.** Every path leads where it led before. -/
theorem resolveFrom_set (hold : files.get? location = some (.file old)) (steps : List Step) :
    resolveFrom (files.set location (.file octets)) ending links directory steps =
      (resolveFrom files ending links directory steps).map (Place.rewritten location octets) := by
  have hroot : location ≠ [] := by
    rintro rfl
    cases hold
  induction links, directory, steps using step_induction with
  | nil links directory =>
    rw [resolveFrom_nil, resolveFrom_nil]
    rfl
  | move links directory step next rest hmove ih =>
    rw [resolveFrom_move hmove, resolveFrom_move hmove, ih]
  | tooLong links directory rest =>
    rw [resolveFrom_tooLong, resolveFrom_tooLong]
    rfl
  | name links directory name rest ih ihlinks =>
    rw [resolveFrom_name, resolveFrom_name, get?_set files hroot]
    by_cases hrefused : refusesSlashes ending rest
    · rw [if_pos hrefused, if_pos hrefused]
      rfl
    rw [if_neg hrefused, if_neg hrefused]
    by_cases hhere : name :: directory = location
    · rw [if_pos hhere, hhere, hold]
      by_cases hrest : rest = []
      · simp [hrest, Except.map, Place.rewritten]
      · simp [hrest, Except.map]
    · rw [if_neg hhere]
      cases files.get? (name :: directory) with
      | none => by_cases hrest : rest = [] <;> simp [hrest, Except.map, Place.rewritten]
      | some entry =>
        cases entry with
        | directory => exact ih
        | file other =>
          by_cases hrest : rest = [] <;> simp [hrest, hhere, Except.map, Place.rewritten]
        | link target =>
          by_cases hkeep : rest = [] ∧ ending = .keep
          · simp [hkeep, Except.map, Place.rewritten]
          · simp only [hkeep, if_false]
            cases links with
            | zero => rfl
            | succ links => exact ihlinks links rfl _ _

theorem resolve_set (hold : files.get? location = some (.file old)) (path : Text) :
    (files.set location (.file octets)).resolve ending path =
      (files.resolve ending path).map (Place.rewritten location octets) := by
  simp only [resolve]
  split
  · rfl
  split
  · rfl
  split
  · rfl
  exact resolveFrom_set hold _

/-! ### The file that a path leads to -/

/-- The location of the regular file that a path leads to, if it leads to one. -/
def fileAt? (files : FileSystem) (path : Text) : Option Location :=
  match files.find .follow path with
  | .ok (location, .file _) => some location
  | _ => none

variable {path : Text}

theorem fileAt?_eq_some_iff :
    files.fileAt? path = some location ↔
      ∃ octets, files.resolve .follow path = .ok (.present location (.file octets)) := by
  rw [fileAt?, find]
  cases files.resolve .follow path with
  | error cause => simp
  | ok place =>
    cases place with
    | vacant l => simp
    | present l entry => cases entry <;> simp

theorem exists_get?_of_fileAt? (h : files.fileAt? path = some location) :
    ∃ octets, files.get? location = some (.file octets) := by
  obtain ⟨octets, hplace⟩ := fileAt?_eq_some_iff.1 h
  exact ⟨octets, get?_of_resolve hplace⟩

theorem fileAt?_set (hold : files.get? location = some (.file old)) :
    (files.set location (.file octets)).fileAt? path = files.fileAt? path := by
  rw [fileAt?, fileAt?, find, find, resolve_set hold]
  cases files.resolve .follow path with
  | error cause => rfl
  | ok place =>
    cases place with
    | vacant l => rfl
    | present l entry => cases entry <;> rfl

/-- What a path reads stands at the location of the file that it leads to. -/
theorem read_eq_ok_iff :
    files.read path = .ok octets ↔
      ∃ location, files.fileAt? path = some location ∧
        files.get? location = some (.file octets) := by
  constructor
  · intro h
    rw [read, find] at h
    cases hplace : files.resolve .follow path with
    | error cause =>
      rw [hplace] at h
      cases h
    | ok place =>
      rw [hplace] at h
      cases place with
      | vacant l => cases h
      | present l entry =>
        cases entry with
        | directory => cases h
        | link target => cases h
        | file found =>
          cases h
          exact ⟨l, fileAt?_eq_some_iff.2 ⟨_, hplace⟩, get?_of_resolve hplace⟩
  · rintro ⟨location, hfile, hget⟩
    obtain ⟨found, hplace⟩ := fileAt?_eq_some_iff.1 hfile
    rw [get?_of_resolve hplace] at hget
    rw [read, find, hplace]
    cases hget
    rfl

/-- What a path reads stands at its location. -/
theorem get?_of_read (hat : files.fileAt? path = some location)
    (hread : files.read path = .ok octets) : files.get? location = some (.file octets) := by
  obtain ⟨l, hl, hget⟩ := read_eq_ok_iff.1 hread
  cases hat.symm.trans hl
  exact hget

/-- A path reads as a text if the file that it leads to holds the octets of that text. -/
theorem readText_eq_ok_iff {text : Text} :
    files.readText path = .ok text ↔ files.read path = .ok (Utf8.encode text) := by
  rw [readText]
  cases files.read path with
  | error cause => simp [bind, Except.bind]
  | ok octets =>
    rw [Except.ok.injEq, ← Utf8.decode?_eq_some_iff]
    cases h : Utf8.decode? octets <;> simp [bind, Except.bind, pure, Except.pure, h]

theorem readText_of_error {cause : IoError} (h : files.read path = .error cause) :
    files.readText path = .error cause := by
  rw [readText, h]
  rfl

theorem readText_of_not_text (h : files.read path = .ok octets)
    (hnone : ∀ text, octets ≠ Utf8.encode text) : files.readText path = .error .notUtf8 := by
  simp [readText, h, Utf8.decode?_eq_none_iff.2 hnone, bind, Except.bind]

theorem readText_congr {now : FileSystem} (h : now.read path = files.read path) :
    now.readText path = files.readText path := by
  rw [readText, readText, h]

/-- **What is read after a write.** The paths that lead to the file read the new octets, all others
read what they read before. -/
theorem read_set (hold : files.get? location = some (.file old)) :
    (files.set location (.file octets)).read path =
      if files.fileAt? path = some location then .ok octets else files.read path := by
  rw [read, read, fileAt?, find, find, resolve_set hold]
  cases files.resolve .follow path with
  | error cause => rfl
  | ok place =>
    cases place with
    | vacant l => rfl
    | present l entry =>
      cases entry with
      | directory => rfl
      | link target => rfl
      | file found =>
        by_cases h : l = location <;> simp [Except.map, Place.rewritten, h]

/-! ### Files that cannot be written -/

/-- The path leads to a regular file that cannot be written. -/
def IsReadOnly (files : FileSystem) (path : Text) : Prop :=
  ∃ location ∈ files.readOnly, files.fileAt? path = some location

instance (files : FileSystem) (path : Text) : Decidable (files.IsReadOnly path) :=
  inferInstanceAs (Decidable (∃ location ∈ files.readOnly, files.fileAt? path = some location))

theorem isReadOnly_iff (h : files.fileAt? path = some location) :
    files.IsReadOnly path ↔ location ∈ files.readOnly := by
  constructor
  · rintro ⟨l, hl, hat⟩
    cases h.symm.trans hat
    exact hl
  · exact fun hmem => ⟨location, hmem, h⟩

/-- Paths to the same file are both read-only, or neither is. -/
theorem isReadOnly_congr {now : FileSystem} {other : Text}
    (hfile : now.fileAt? other = files.fileAt? path) (hreadOnly : now.readOnly = files.readOnly) :
    now.IsReadOnly other ↔ files.IsReadOnly path := by
  rw [IsReadOnly, IsReadOnly, hfile, hreadOnly]

/-- **Writing to a file** puts the octets at its location, unless it is read-only. -/
theorem write_of_fileAt? (h : files.fileAt? path = some location) (octets : List UInt8) :
    files.write path octets =
      if files.IsReadOnly path then .error .permissionDenied
      else .ok (files.set location (.file octets)) := by
  obtain ⟨old, hold⟩ := fileAt?_eq_some_iff.1 h
  obtain ⟨hpath, hsteps⟩ := resolve_eq_ok_iff.1 hold
  have hcreate : files.resolve .create path = .ok (.present location (.file old)) :=
    resolve_eq_ok_iff.2 ⟨hpath, resolveFrom_create hsteps⟩
  simp only [write, hcreate, isReadOnly_iff h]

end FileSystem

end Phrasebook
