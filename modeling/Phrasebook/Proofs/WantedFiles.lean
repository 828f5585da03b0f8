import Mathlib.Data.List.Forall2
import Mathlib.Data.List.TakeWhile
import Phrasebook.Proofs.Obstruction
import Phrasebook.Proofs.PathOrder
/-!
# Which files are documents

Below a directory without links, discovery returns the regular files whose names have a wanted
extension, all of them and nothing else, each one once and in the order of their paths. It fails
only if there is a directory below the root that it cannot open, since the path to it is too long.

## Main definitions

* `FileSystem.Leads`: names lead from a location down to an entry.
* `FileName.EndsIn`: the name has the wanted extension.

## Main results

* `FileName.hasExtension_iff`: which names have a wanted extension.
* `mem_descend_iff_of_linkFree`: without links, a walk finds the regular files below a directory.
* `obstructed_iff_of_linkFree`: without links, the only obstacles are paths that are too long.
* `discover_exactly`: what discovery returns.
-/

namespace Phrasebook

open FileSystem

/-! ### Extensions -/

/-- The two characters are the same up to the case of an ASCII letter. -/
def SameLetter (c d : Char) : Prop :=
  c = d ∨ ∃ k < 26, c.toNat = 'A'.toNat + k ∧ d.toNat = 'a'.toNat + k ∨
    c.toNat = 'a'.toNat + k ∧ d.toNat = 'A'.toNat + k

theorem toNat_toLower (c : Char) :
    c.toLower.toNat = if 65 ≤ c.toNat ∧ c.toNat ≤ 90 then c.toNat + 32 else c.toNat := by
  have hcapital : 'A'.val ≤ c.val ∧ c.val ≤ 'Z'.val ↔ 65 ≤ c.toNat ∧ c.toNat ≤ 90 := by
    simp [UInt32.le_iff_toNat_le]
  by_cases h : 'A'.val ≤ c.val ∧ c.val ≤ 'Z'.val
  · have hn := hcapital.1 h
    have hlower : c.toLower.toNat = (c.val + 32).toNat := congrArg Char.toNat (dif_pos h)
    rw [if_pos hn, hlower, UInt32.toNat_add, Char.toNat_val]
    exact Nat.mod_eq_of_lt (by simp; omega)
  · have hlower : c.toLower = c := dif_neg h
    rw [if_neg (mt hcapital.2 h), hlower]

theorem toLower_eq_toLower_iff {c d : Char} : c.toLower = d.toLower ↔ SameLetter c d := by
  have hA : 'A'.toNat = 65 := rfl
  have ha : 'a'.toNat = 97 := rfl
  rw [← Char.toNat_inj, toNat_toLower, toNat_toLower, SameLetter, ← Char.toNat_inj, hA, ha]
  constructor
  · intro h
    by_cases hc : 65 ≤ c.toNat ∧ c.toNat ≤ 90 <;> by_cases hd : 65 ≤ d.toNat ∧ d.toNat ≤ 90
    · rw [if_pos hc, if_pos hd] at h
      exact .inl (Nat.add_right_cancel h)
    · rw [if_pos hc, if_neg hd] at h
      exact .inr ⟨c.toNat - 65, by omega, .inl (by omega)⟩
    · rw [if_neg hc, if_pos hd] at h
      exact .inr ⟨d.toNat - 65, by omega, .inr (by omega)⟩
    · rw [if_neg hc, if_neg hd] at h
      exact .inl h
  · rintro (h | ⟨k, hk, h | h⟩)
    · rw [h]
    · rw [if_pos (by omega), if_neg (by omega)]
      omega
    · rw [if_neg (by omega), if_pos (by omega)]
      omega

theorem sameUpToCase_iff {a b : Text} : sameUpToCase a b = true ↔ List.Forall₂ SameLetter a b := by
  rw [sameUpToCase, decide_eq_true_eq, ← List.forall₂_eq_eq_eq, List.forall₂_map_left_iff,
    List.forall₂_map_right_iff]
  simp only [toLower_eq_toLower_iff]

/-- A text without the dots that it begins with. -/
theorem dropWhile_dot_eq_iff {text bare : Text} :
    text.dropWhile (· = '.') = bare ↔
      (∃ dots, text = List.replicate dots '.' ++ bare) ∧ bare.head? ≠ some '.' := by
  constructor
  · rintro rfl
    induction text with
    | nil => exact ⟨⟨0, rfl⟩, by simp⟩
    | cons c text ih =>
      obtain ⟨⟨dots, htext⟩, hhead⟩ := ih
      rw [List.dropWhile_cons]
      by_cases hc : c = '.'
      · rw [if_pos (decide_eq_true hc), hc]
        exact ⟨⟨dots + 1, congrArg ('.' :: ·) htext⟩, hhead⟩
      · rw [if_neg (by simpa using hc)]
        exact ⟨⟨0, rfl⟩, by simpa using hc⟩
  · rintro ⟨⟨dots, rfl⟩, hhead⟩
    rw [List.dropWhile_append_of_pos (by simp)]
    cases bare with
    | nil => rfl
    | cons c bare => rw [List.dropWhile_cons_of_neg (by simpa using hhead)]

namespace FileName

variable {name : FileName}

theorem extension?_of_reverse_eq {back front : Text}
    (h : name.text.reverse = back ++ '.' :: front) (hback : '.' ∉ back) :
    name.extension? = if front = [] then none else some back.reverse := by
  have hpos : ∀ c ∈ back, decide (c ≠ '.') = true := fun c hc =>
    decide_eq_true fun hdot => hback (hdot ▸ hc)
  rw [extension?, h, List.dropWhile_append_of_pos hpos, List.takeWhile_append_of_pos hpos]
  cases front <;> simp

theorem extension?_of_not_mem (h : '.' ∉ name.text.reverse) : name.extension? = none := by
  have hnone : name.text.reverse.dropWhile (fun c => decide (c ≠ '.')) = [] :=
    List.dropWhile_eq_nil_iff.2 fun c hc => decide_eq_true fun hdot => h (hdot ▸ hc)
  rw [extension?, hnone]

/-- The extension of a name is what stands after its last dot, if something stands before that
dot. -/
theorem extension?_eq_some_iff {extension : Text} :
    name.extension? = some extension ↔
      ∃ stem, name.text = stem ++ '.' :: extension ∧ stem ≠ [] ∧ '.' ∉ extension := by
  constructor
  · intro h
    have hdot : '.' ∈ name.text.reverse := by
      by_contra hnone
      rw [extension?_of_not_mem hnone] at h
      cases h
    obtain ⟨back, front, htext, hback⟩ := List.eq_append_cons_of_mem hdot
    rw [extension?_of_reverse_eq htext hback] at h
    split at h
    · cases h
    · rename_i hfront
      cases h
      have hname := congrArg List.reverse htext
      exact ⟨front.reverse, by simpa using hname, by simpa using hfront, by simpa using hback⟩
  · rintro ⟨stem, htext, hstem, hdot⟩
    have hback : name.text.reverse = extension.reverse ++ '.' :: stem.reverse := by
      simp [htext]
    rw [extension?_of_reverse_eq hback (by simpa using hdot)]
    simp [hstem]

/-- The name has the wanted extension: it consists of some symbols, a dot, and what is wanted, the
dots in front of that and the case of ASCII letters aside. -/
def EndsIn (name : FileName) (wanted : Text) : Prop :=
  ∃ stem extension dots bare, name.text = stem ++ '.' :: extension ∧ stem ≠ [] ∧ '.' ∉ extension ∧
    wanted = List.replicate dots '.' ++ bare ∧ bare.head? ≠ some '.' ∧
      List.Forall₂ SameLetter bare extension

theorem endsIn_iff {wanted : Text} :
    name.EndsIn wanted ↔ ∃ extension, name.extension? = some extension ∧
      sameUpToCase (wanted.dropWhile (· = '.')) extension = true := by
  constructor
  · rintro ⟨stem, extension, dots, bare, hname, hstem, hdot, hwanted, hbare, hsame⟩
    refine ⟨extension, extension?_eq_some_iff.2 ⟨stem, hname, hstem, hdot⟩, ?_⟩
    rwa [dropWhile_dot_eq_iff.2 ⟨⟨dots, hwanted⟩, hbare⟩, sameUpToCase_iff]
  · rintro ⟨extension, hextension, hsame⟩
    obtain ⟨stem, hname, hstem, hdot⟩ := extension?_eq_some_iff.1 hextension
    obtain ⟨⟨dots, hwanted⟩, hbare⟩ := dropWhile_dot_eq_iff.1 (Eq.refl (wanted.dropWhile (· = '.')))
    exact ⟨stem, extension, dots, _, hname, hstem, hdot, hwanted, hbare, sameUpToCase_iff.1 hsame⟩

/-- **A name has one of the extensions if it ends in one.** -/
theorem hasExtension_iff {extensions : List Text} :
    name.hasExtension extensions = true ↔ ∃ wanted ∈ extensions, name.EndsIn wanted := by
  simp only [hasExtension, endsIn_iff]
  cases name.extension? <;> simp

end FileName

theorem Trail.isWanted_iff {extensions : List Text} {trail : Trail} :
    trail.isWanted extensions = true ↔
      ∃ names name, trail = names ++ [name] ∧ ∃ wanted ∈ extensions, name.EndsIn wanted := by
  rw [isWanted]
  rcases List.eq_nil_or_concat' trail with rfl | ⟨names, name, rfl⟩
  · simp
  · simp [FileName.hasExtension_iff]

/-! ### Names that lead down -/

/-- The names lead from a directory down to an entry: the last one is that of the entry, and all the
others are those of directories. -/
inductive FileSystem.Leads (files : FileSystem) : Location → List FileName → Entry → Prop
  /-- A name leads to the entry of the directory that has it. -/
  | entry {location : Location} {name : FileName} {entry : Entry}
    (hget : files.get? (name :: location) = some entry) : Leads files location [name] entry
  /-- The name of a directory leads into it, and other names go on from there. -/
  | down {location : Location} {name : FileName} {names : List FileName} {entry : Entry}
    (hget : files.get? (name :: location) = some .directory)
    (hrest : Leads files (name :: location) names entry) :
    Leads files location (name :: names) entry

namespace FileSystem.Leads

variable {files : FileSystem} {location : Location} {names : List FileName} {entry : Entry}

/-- The first name is that of a child. -/
theorem exists_mem_children (h : files.Leads location names entry) :
    ∃ name child rest, names = name :: rest ∧ (name, child) ∈ files.children location ∧
      (rest = [] ∧ child = entry ∨
        child = .directory ∧ files.Leads (name :: location) rest entry) := by
  have hmem {name : FileName} {child : Entry} (hget : files.get? (name :: location) = some child) :
      (name, child) ∈ files.children location :=
    mem_children_iff.2 ((get?_eq_some_iff (List.cons_ne_nil _ _)).1 hget)
  cases h with
  | entry hget => exact ⟨_, _, [], rfl, hmem hget, .inl ⟨rfl, rfl⟩⟩
  | down hget hrest => exact ⟨_, _, _, rfl, hmem hget, .inr ⟨rfl, hrest⟩⟩

end FileSystem.Leads

/-! ### What a walk without links finds -/

variable {files : FileSystem} {enter : List Visit → Visit → Except WalkError (List Trail)}
  {depth : Nat} {stack : List Visit} {directory : Visit} {trails : List Trail}

/-- **Without links, a walk finds the regular files below a directory**, if it goes down far
enough. -/
theorem mem_descend_iff_of_linkFree (hlinks : files.LinkFree)
    (hdepth : files.depth < depth + directory.location.length)
    (h : descend files enter depth stack directory = .ok trails) {trail : Trail} :
    trail ∈ trails ↔ ∃ names octets, trail = directory.trail ++ names ∧
      files.Leads directory.location names (.file octets) := by
  induction depth generalizing stack directory trails with
  | zero =>
    cases h
    refine iff_of_false List.not_mem_nil ?_
    rintro ⟨names, octets, -, hleads⟩
    obtain ⟨name, child, rest, -, hchild, -⟩ := hleads.exists_mem_children
    have := length_lt_depth_of_mem_children hchild
    omega
  | succ depth ih =>
    obtain ⟨found, rfl, hfound⟩ := descend_eq_ok h
    have hdeeper (name : FileName) :
        files.depth < depth + (directory.child name).location.length := by
      simp only [Visit.child, List.length_cons]
      omega
    rw [List.mem_flatMap]
    constructor
    · rintro ⟨⟨name, entry⟩, hchild, hmem⟩
      have hhere := hfound name entry hchild
      have hget := get?_of_mem_children hchild
      cases entry with
      | link target => exact absurd hget (hlinks _ _)
      | file octets =>
        rw [hhere, List.mem_singleton] at hmem
        exact ⟨[name], octets, hmem, .entry hget⟩
      | directory =>
        obtain ⟨names, octets, rfl, hleads⟩ := (ih (hdeeper name) hhere).1 hmem
        exact ⟨name :: names, octets, List.append_assoc _ _ _, .down hget hleads⟩
    · rintro ⟨names, octets, rfl, hleads⟩
      obtain ⟨name, child, rest, rfl, hchild, hrest⟩ := hleads.exists_mem_children
      have hhere := hfound name child hchild
      refine ⟨_, hchild, ?_⟩
      rcases hrest with ⟨rfl, rfl⟩ | ⟨rfl, hrest⟩
      · rw [hhere]
        exact List.mem_singleton_self _
      · exact (ih (hdeeper name) hhere).2 ⟨rest, octets, (List.append_assoc _ [name] _).symm, hrest⟩

theorem mem_walk_iff_of_linkFree (hlinks : files.LinkFree) {links : Nat}
    (h : walk files (links + 1) stack directory = .ok trails) {trail : Trail} :
    trail ∈ trails ↔ ∃ names octets, trail = directory.trail ++ names ∧
      files.Leads directory.location names (.file octets) :=
  mem_descend_iff_of_linkFree hlinks (Nat.lt_add_right _ (Nat.lt_succ_self _)) h

/-- **Without links, the only obstacles are paths that are too long.** -/
theorem obstructed_iff_of_linkFree (hlinks : files.LinkFree) :
    Obstructed files stack directory ↔ Path.isTooLong directory.path = true ∨
      ∃ names, files.Leads directory.location names .directory ∧
        Path.isTooLong (Path.joinAll directory.path names) = true := by
  constructor
  · intro h
    induction h with
    | tooLong hlong => exact .inl hlong
    | dangling hchild _ => exact absurd (get?_of_mem_children hchild) (hlinks _ _)
    | loop hchild _ _ => exact absurd (get?_of_mem_children hchild) (hlinks _ _)
    | throughLink hchild _ _ _ _ => exact absurd (get?_of_mem_children hchild) (hlinks _ _)
    | inDirectory hchild _ ih =>
      have hget := get?_of_mem_children hchild
      rcases ih with hlong | ⟨names, hleads, hlong⟩
      · exact .inr ⟨[_], .entry hget, hlong⟩
      · exact .inr ⟨_ :: names, .down hget hleads, hlong⟩
  · rintro (hlong | ⟨names, hleads, hlong⟩)
    · exact .tooLong hlong
    induction names generalizing stack directory with
    | nil => exact .tooLong hlong
    | cons name names ih =>
      obtain ⟨_, child, _, heq, hchild, hrest⟩ := hleads.exists_mem_children
      cases heq
      rcases hrest with ⟨rfl, rfl⟩ | ⟨rfl, hrest⟩
      · exact .inDirectory hchild (.tooLong hlong)
      · exact .inDirectory hchild (ih hrest hlong)

/-! ### The documents under a directory -/

variable {root : Text} {base : Location} {extensions : List Text}

/-- Without links, discovery fails only if it cannot open a directory. -/
theorem exists_discover_eq_ok_iff_of_linkFree (hlinks : files.LinkFree)
    (hroot : files.find .follow root = .ok (base, .directory)) :
    (∃ trails, discover files root extensions = .ok trails) ↔
      ∀ names, files.Leads base names .directory →
        Path.isTooLong (Path.joinAll root names) = false := by
  have hok : (∃ trails, discover files root extensions = .ok trails) ↔
      ¬ ∃ e, discover files root extensions = .error e := by
    cases discover files root extensions <;> simp
  have hobstructed : ObstructedRoot files root ↔ Obstructed files [] ⟨root, base, []⟩ := by
    simp [ObstructedRoot, hroot]
  have hshort : Path.isTooLong root = false := (resolve_eq_ok_iff.1 (resolve_of_find hroot)).1.2.2
  rw [hok, exists_discover_eq_error_iff, hobstructed, obstructed_iff_of_linkFree hlinks]
  simp [hshort]

/-- Without links, discovery finds the regular files whose names have a wanted extension. -/
theorem mem_discover_iff_of_linkFree (hlinks : files.LinkFree)
    (hroot : files.find .follow root = .ok (base, .directory))
    (h : discover files root extensions = .ok trails) {trail : Trail} :
    trail ∈ trails ↔ ∃ names name octets, trail = names ++ [name] ∧
      files.Leads base (names ++ [name]) (.file octets) ∧
        ∃ wanted ∈ extensions, name.EndsIn wanted := by
  have hfile : files.isFile root = false := by
    rw [isFile, hroot]
  rcases discover_eq_ok h with ⟨htrue, -⟩ | ⟨-, all, hall, rfl⟩
  · rw [hfile] at htrue
    cases htrue
  · rw [walkRoot, find_keep hlinks, hroot] at hall
    rw [List.mem_mergeSort, List.mem_filter, mem_walk_iff_of_linkFree hlinks hall,
      Trail.isWanted_iff]
    constructor
    · rintro ⟨⟨names, octets, htrail, hleads⟩, front, name, rfl, hname⟩
      rw [List.nil_append] at htrail
      exact ⟨front, name, octets, rfl, htrail ▸ hleads, hname⟩
    · rintro ⟨front, name, octets, rfl, hleads, hname⟩
      exact ⟨⟨_, octets, rfl, hleads⟩, front, name, rfl, hname⟩

/-- **What discovery returns.** Let the root lead to a directory of a file system without links.
Discovery succeeds exactly if no directory below the root has too long a path to be opened. Then the
paths of the documents are strictly in order, component by component, and they are the root
continued by the names that lead to a regular file with one of the wanted extensions. -/
theorem discover_exactly (hlinks : files.LinkFree)
    (hroot : files.find .follow root = .ok (base, .directory)) (extensions : List Text) :
    ((∃ trails, discover files root extensions = .ok trails) ↔
      ∀ names, files.Leads base names .directory →
        Path.isTooLong (Path.joinAll root names) = false) ∧
    ∀ trails, discover files root extensions = .ok trails →
      (trails.map (Path.joinAll root)).Pairwise Path.Before ∧
        ∀ path, path ∈ trails.map (Path.joinAll root) ↔
          ∃ names name octets, path = Path.joinAll root (names ++ [name]) ∧
            files.Leads base (names ++ [name]) (.file octets) ∧
              ∃ wanted ∈ extensions, name.EndsIn wanted := by
  refine ⟨exists_discover_eq_ok_iff_of_linkFree hlinks hroot, fun trails h => ⟨?_, fun path => ?_⟩⟩
  · have hne : root ≠ [] := (resolve_eq_ok_iff.1 (resolve_of_find hroot)).1.2.1
    refine List.pairwise_map.2 ?_
    exact ((pairwise_precedes_discover h).and (nodup_discover h)).imp fun hboth =>
      Trail.before_of_precedes hne hboth.1 hboth.2
  · rw [List.mem_map]
    constructor
    · rintro ⟨trail, htrail, rfl⟩
      obtain ⟨names, name, octets, rfl, hname⟩ :=
        (mem_discover_iff_of_linkFree hlinks hroot h).1 htrail
      exact ⟨names, name, octets, rfl, hname⟩
    · rintro ⟨names, name, octets, rfl, hname⟩
      exact ⟨_, (mem_discover_iff_of_linkFree hlinks hroot h).2 ⟨names, name, octets, rfl, hname⟩,
        rfl⟩

/-! ### A directory with all kinds of names -/

/-- The name of a directory that could be that of a page. -/
def volume : FileName :=
  ⟨['v', '.', 'm', 'd'], by decide⟩

/-- The name of a directory, and of a file without an extension. -/
def chapter : FileName :=
  ⟨['e'], by decide⟩

/-- The name of a page that would come before those in `e` if slashes were compared. -/
def dashedPage : FileName :=
  ⟨['e', '-', '.', 'm', 'd'], by decide⟩

/-- A name with nothing before its dot. -/
def hiddenPage : FileName :=
  ⟨['.', 'm', 'd'], by decide⟩

/-- A name with two dots and an extension in capitals. -/
def loudPage : FileName :=
  ⟨['x', '.', 'y', '.', 'M', 'D'], by decide⟩

/-- A directory that is named like a page, and pages and other files in it. -/
def mixedPages : FileSystem where
  entries := [([volume], .directory), ([chapter, volume], .directory),
    ([loudPage, chapter, volume], .file [0xFF]), ([chapter, chapter, volume], .file []),
    ([dashedPage, volume], .file []), ([hiddenPage, volume], .file [])]
  workingDirectory := []
  nodup := by decide

theorem discover_mixedPages :
    discover mixedPages volume.text [['.', 'm', 'd'], ['.'], ['m', 'd']] =
      .ok [[chapter, loudPage], [dashedPage]] := by
  have hall : walkRoot mixedPages volume.text =
      .ok [[chapter, loudPage], [chapter, chapter], [dashedPage], [hiddenPage]] := by
    rfl
  exact discover_of_pairwise (by rfl) hall (by decide)

/-- One extension is wanted twice, and another one is empty. The directory that is named like a page
is opened, its path being short, and is no document itself; and neither is the file without anything
before the dot. -/
theorem discover_exactly_mixedPages :
    mixedPages.LinkFree ∧ mixedPages.find .follow volume.text = .ok ([volume], .directory) ∧
      (∀ names, mixedPages.Leads [volume] names .directory →
        Path.isTooLong (Path.joinAll volume.text names) = false) ∧
      Path.Before (Path.joinAll volume.text [chapter, loudPage])
        (Path.joinAll volume.text [dashedPage]) ∧
      ¬ ∃ wanted ∈ [['.', 'm', 'd'], ['.'], ['m', 'd']], hiddenPage.EndsIn wanted := by
  have hlinks : mixedPages.LinkFree :=
    linkFree_of_forall_entries fun location target => by simp [mixedPages]
  have hroot : mixedPages.find .follow volume.text = .ok ([volume], .directory) := by
    rfl
  obtain ⟨hopen, hfound⟩ := discover_exactly hlinks hroot [['.', 'm', 'd'], ['.'], ['m', 'd']]
  obtain ⟨hordered, hmem⟩ := hfound _ discover_mixedPages
  refine ⟨hlinks, hroot, hopen.1 ⟨_, discover_mixedPages⟩, (List.pairwise_pair.1 hordered), ?_⟩
  intro hwanted
  -- the path of the hidden file is not among the two
  have hhidden := (hmem (Path.joinAll volume.text [hiddenPage])).2
    ⟨[], hiddenPage, [], rfl, .entry rfl, hwanted⟩
  revert hhidden
  decide

end Phrasebook
