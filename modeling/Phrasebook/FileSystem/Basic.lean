import Phrasebook.FileSystem.Path
/-!
# File systems

A file system is a finite assignment of entries to locations: regular files with their octets,
directories, and symbolic links with the path that they stand for.

## Main definitions

* `Location`: the place of an entry, as the names that lead to it.
* `Entry`: what stands at a location.
* `FileSystem`: the entries, the directory from which relative paths start, and the locations where
  nothing can be written.
* `FileSystem.get?`, `FileSystem.set`: look at a location, and put an entry there.
* `FileSystem.children`: the entries of a directory.

## Main results

* `FileSystem.get?_set`: what stands where after an entry has been put somewhere.

## Implementation notes

A location lists names from the entry up to the root, so that the parent of a location is its tail
and a child is one name in front. The root itself is always a directory. That no location has two
entries is a part of the type, so that looking at a location and listing the entries tell the same.

What can fail for another reason than the entries and the paths is a write, at the locations in
`FileSystem.readOnly`. All else is left out. There are no hard links: two locations never hold the
same file. There are no entries of other kinds, such as pipes. There are no other permissions: every
file can be read, and every directory can be listed and entered. And no device fails: what is read
is all that a file holds, and a write that is not refused is carried out in full.
-/

namespace Phrasebook

/-- The place of an entry: its name, the name of its directory, and so on up to the root. -/
abbrev Location := List FileName

/-- What can stand at a location. -/
inductive Entry where
  /-- A regular file. -/
  | file (octets : List UInt8)
  /-- A directory. -/
  | directory
  /-- A symbolic link, with the path that it stands for. -/
  | link (target : Text)
  deriving DecidableEq

/-- The entries of a file system. -/
structure FileSystem where
  /-- The locations with an entry, the root excepted. -/
  entries : List (Location × Entry)
  /-- Where relative paths start. -/
  workingDirectory : Location
  /-- The locations where no file can be written. -/
  readOnly : List Location := []
  /-- No location has two entries. -/
  nodup : (entries.map Prod.fst).Nodup := by exact List.nodup_nil
  deriving DecidableEq

namespace FileSystem

/-- Replace the entry of a location, or add one. -/
def setEntry (location : Location) (entry : Entry) : List (Location × Entry) →
    List (Location × Entry)
  | [] => [(location, entry)]
  | (l, e) :: rest =>
    if l = location then (l, entry) :: rest else (l, e) :: setEntry location entry rest

/-- Putting an entry at a location keeps the other locations, and their order. -/
theorem map_fst_setEntry (location : Location) (entry : Entry)
    (entries : List (Location × Entry)) :
    (setEntry location entry entries).map Prod.fst =
      if location ∈ entries.map Prod.fst then entries.map Prod.fst
      else entries.map Prod.fst ++ [location] := by
  induction entries with
  | nil => rfl
  | cons first rest ih =>
    rw [setEntry]
    by_cases h : first.1 = location
    · simp [h]
    · have hne : location ≠ first.1 := Ne.symm h
      by_cases hrest : location ∈ rest.map Prod.fst <;> simp_all

theorem nodup_setEntry {location : Location} {entry : Entry} {entries : List (Location × Entry)}
    (h : (entries.map Prod.fst).Nodup) :
    ((setEntry location entry entries).map Prod.fst).Nodup := by
  rw [map_fst_setEntry]
  split
  · exact h
  · rename_i hnew
    refine List.nodup_append.2 ⟨h, List.pairwise_singleton _ _, ?_⟩
    rintro l hl other hother rfl
    exact hnew (List.mem_singleton.1 hother ▸ hl)

/-- What stands at a location. -/
def get? (files : FileSystem) (location : Location) : Option Entry :=
  if location = [] then some .directory
  else (files.entries.find? fun (l, _) => l = location).map Prod.snd

/-- Put an entry at a location. -/
def set (files : FileSystem) (location : Location) (entry : Entry) : FileSystem :=
  { files with
    entries := setEntry location entry files.entries
    nodup := nodup_setEntry files.nodup }

private theorem find?_setEntry (location other : Location) (entry : Entry)
    (entries : List (Location × Entry)) :
    ((setEntry location entry entries).find? fun (l, _) => l = other).map Prod.snd =
      if other = location then some entry
      else (entries.find? fun (l, _) => l = other).map Prod.snd := by
  induction entries with
  | nil =>
    by_cases h : other = location
    · simp [setEntry, h]
    · simp [setEntry, h, Ne.symm h]
  | cons first rest ih =>
    obtain ⟨l, e⟩ := first
    by_cases hl : l = location <;> by_cases h : l = other <;> by_cases ho : other = location <;>
      simp_all [setEntry]

/-- Putting an entry at a location changes what stands there, and nothing else. -/
theorem get?_set (files : FileSystem) {location : Location} (h : location ≠ []) (entry : Entry)
    (other : Location) :
    (files.set location entry).get? other =
      if other = location then some entry else files.get? other := by
  by_cases ho : other = []
  · subst ho
    simp [get?, Ne.symm h]
  · simp only [get?, ho, if_false, set, find?_setEntry]

/-- Take away whatever stands at a location and below it. -/
def erase (files : FileSystem) (location : Location) : FileSystem :=
  { files with
    entries := files.entries.filter fun (l, _) => !location.isSuffixOf l
    nodup := (List.filter_sublist.map Prod.fst).nodup files.nodup }

/-- The names in a directory, with what stands there. -/
def children (files : FileSystem) (location : Location) : List (FileName × Entry) :=
  files.entries.filterMap fun (l, entry) =>
    match l with
    | name :: parent => if parent = location then some (name, entry) else none
    | [] => none

/-- A number of names that no location exceeds. -/
def depth (files : FileSystem) : Nat :=
  (files.entries.map fun (l, _) => l.length).foldl max 0

/-- The regular files, with their octets. -/
def regularFiles (files : FileSystem) : List (Location × List UInt8) :=
  files.entries.filterMap fun (l, entry) =>
    match entry with
    | .file octets => some (l, octets)
    | _ => none

end FileSystem

end Phrasebook
