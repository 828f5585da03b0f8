import Phrasebook.Proofs.Discovery
/-!
# Discovery looks at no octets

A walk looks at names, directories and links. Of a regular file it takes note that it is one, and
not of what it holds. So a write to a regular file changes nothing about what is discovered
afterwards, be it documents, an entry that cannot be looked at, or a loop.

## Main definitions

* `Entry.rewritten`: an entry after a file has got new octets.

## Main results

* `FileSystem.children_set`, `FileSystem.find_set`: a directory and a path after a write.
* `discover_set`: the same is discovered after a write.
-/

namespace Phrasebook

/-- An entry at a location after the file at `written` has got new octets. -/
def Entry.rewritten (written : Location) (octets : List UInt8) (location : Location) :
    Entry → Entry
  | .file old => .file (if location = written then octets else old)
  | entry => entry

namespace FileSystem

variable {files : FileSystem} {location : Location} {old octets : List UInt8}

/-! ### The entries after a write -/

theorem setEntry_eq_map {entry : Entry} {entries : List (Location × Entry)}
    (hnodup : (entries.map Prod.fst).Nodup) (hmem : location ∈ entries.map Prod.fst) :
    setEntry location entry entries =
      entries.map fun other => (other.1, if other.1 = location then entry else other.2) := by
  induction entries with
  | nil => cases hmem
  | cons first rest ih =>
    obtain ⟨hnew, hrest⟩ := List.nodup_cons.1 hnodup
    rw [setEntry, List.map_cons]
    by_cases hfirst : first.1 = location
    · -- the location is not there a second time
      have hsame : rest.map (fun other =>
          (other.1, if other.1 = location then entry else other.2)) = rest := by
        refine (List.map_congr_left fun other hother => ?_).trans (List.map_id rest)
        have hne : other.1 ≠ location := by
          rintro rfl
          exact hnew (hfirst ▸ List.mem_map_of_mem hother)
        rw [if_neg hne, id]
      rw [if_pos hfirst, if_pos hfirst, hsame]
    · have hmem' : location ∈ rest.map Prod.fst :=
        (List.mem_cons.1 hmem).resolve_left (Ne.symm hfirst)
      rw [if_neg hfirst, if_neg hfirst, ih hrest hmem']

/-- A write leaves the entries where they are. -/
theorem entries_set (hold : files.get? location = some (.file old)) :
    (files.set location (.file octets)).entries =
      files.entries.map fun other => (other.1, other.2.rewritten location octets other.1) := by
  have hroot : location ≠ [] := by
    rintro rfl
    cases hold
  have hmem := (get?_eq_some_iff hroot).1 hold
  refine (setEntry_eq_map files.nodup (List.mem_map_of_mem hmem)).trans ?_
  refine List.map_congr_left fun other hother => congrArg (Prod.mk other.1) ?_
  by_cases hhere : other.1 = location
  · obtain rfl := List.inj_on_of_nodup_map files.nodup hother hmem hhere
    simp [Entry.rewritten]
  · cases hentry : other.2 <;> simp [Entry.rewritten, hhere]

theorem length_entries_set (hold : files.get? location = some (.file old)) :
    (files.set location (.file octets)).entries.length = files.entries.length := by
  rw [entries_set hold, List.length_map]

theorem depth_set (hold : files.get? location = some (.file old)) :
    (files.set location (.file octets)).depth = files.depth := by
  rw [depth, entries_set hold, List.map_map]
  rfl

/-- **A directory has the same children after a write.** -/
theorem children_set (hold : files.get? location = some (.file old)) (directory : Location) :
    (files.set location (.file octets)).children directory =
      (files.children directory).map fun child =>
        (child.1, child.2.rewritten location octets (child.1 :: directory)) := by
  rw [children, entries_set hold, children, List.filterMap_map, List.map_filterMap]
  refine List.filterMap_congr fun entry _ => ?_
  obtain ⟨l, e⟩ := entry
  cases l with
  | nil => rfl
  | cons name parent =>
    by_cases hparent : parent = directory
    · subst hparent
      simp
    · simp [hparent]

/-- **A path leads to the same entry after a write.** -/
theorem find_set (hold : files.get? location = some (.file old)) (ending : Ending) (path : Text) :
    (files.set location (.file octets)).find ending path =
      (files.find ending path).map fun found =>
        (found.1, found.2.rewritten location octets found.1) := by
  rw [find, find, resolve_set hold]
  cases files.resolve ending path with
  | error cause => rfl
  | ok place =>
    cases place with
    | vacant l => rfl
    | present l entry => cases entry <;> rfl

theorem isFile_set (hold : files.get? location = some (.file old)) (path : Text) :
    (files.set location (.file octets)).isFile path = files.isFile path := by
  rw [isFile, isFile, find_set hold]
  cases files.find .follow path with
  | error cause => rfl
  | ok found =>
    obtain ⟨l, entry⟩ := found
    cases entry <;> rfl

end FileSystem

open FileSystem

/-! ### A walk after a write -/

variable {files : FileSystem} {location : Location} {old octets : List UInt8}

theorem descend_set (hold : files.get? location = some (.file old))
    {enter enter' : List Visit → Visit → Except WalkError (List Trail)}
    (henter : ∀ stack child, enter' stack child = enter stack child) (depth : Nat)
    (stack : List Visit) (directory : Visit) :
    descend (files.set location (.file octets)) enter' depth stack directory =
      descend files enter depth stack directory := by
  induction depth generalizing stack directory with
  | zero => rfl
  | succ depth ih =>
    simp only [descend, children_set hold, List.mapM_map, Function.comp_def]
    refine if_congr Iff.rfl rfl (congrArg (· >>= _) (congrArg (List.mapM · _) ?_))
    funext child
    obtain ⟨name, entry⟩ := child
    cases entry with
    | file other => rfl
    | directory => exact ih _ _
    | link target => exact henter _ _

theorem walk_set (hold : files.get? location = some (.file old)) (links : Nat)
    (stack : List Visit) (directory : Visit) :
    walk (files.set location (.file octets)) links stack directory =
      walk files links stack directory := by
  induction links generalizing stack directory with
  | zero => rfl
  | succ links ih =>
    rw [walk, walk, depth_set hold]
    refine descend_set hold (fun stack child => ?_) _ _ _
    rw [find_set hold]
    cases files.find .follow child.path with
    | error cause => rfl
    | ok found =>
      obtain ⟨l, entry⟩ := found
      cases entry with
      | file other => rfl
      | link target => rfl
      | directory => simp only [Except.map, Entry.rewritten, ih]

theorem walkRoot_set (hold : files.get? location = some (.file old)) (root : Text) :
    walkRoot (files.set location (.file octets)) root = walkRoot files root := by
  simp only [walkRoot, length_entries_set hold, find_set hold, walk_set hold]
  cases files.find .keep root with
  | error cause => rfl
  | ok found =>
    obtain ⟨l, entry⟩ := found
    cases entry with
    | file other => rfl
    | directory => rfl
    | link target =>
      cases files.find .follow root with
      | error cause => rfl
      | ok found =>
        obtain ⟨l, entry⟩ := found
        cases entry <;> rfl

/-- **The same is discovered after a write.** -/
theorem discover_set (hold : files.get? location = some (.file old)) (root : Text)
    (extensions : List Text) :
    discover (files.set location (.file octets)) root extensions =
      discover files root extensions := by
  rw [discover, discover, isFile_set hold, walkRoot_set hold]

end Phrasebook
