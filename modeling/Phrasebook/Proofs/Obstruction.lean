import Phrasebook.Proofs.Discovery
/-!
# Obstacles on a walk

A walk fails if it meets a directory that cannot be opened, a link that leads nowhere, or a link
back to a directory that it is in. How deep it is by then and what it has found so far does not
matter. There is no other reason, and none of these is missed: the two numbers that bound a walk do
not cut it short, since a way down without links has no more names than the longest location, and
each link that is followed leads to a directory that the walk is not in.

## Main definitions

* `Obstructed`: a walk meets an obstacle, where it is or further on.
* `followLink`: what a walk does with a link.
* `unentered`: the entries that lie in no directory that a walk is in.

## Main results

* `exists_walk_eq_error_iff`: a walk fails exactly if it meets an obstacle.
* `exists_discover_eq_error_iff`: discovery fails exactly if the root leads nowhere or there is an
  obstacle below it.
-/

namespace Phrasebook

open FileSystem

/-- A walk that has come to a directory, and is in the directories of `stack`, meets an obstacle,
there or further on. -/
inductive Obstructed (files : FileSystem) : (stack : List Visit) → (directory : Visit) → Prop
  /-- The directory cannot be opened. -/
  | tooLong {stack : List Visit} {directory : Visit}
    (hlong : Path.isTooLong directory.path = true) :
    Obstructed files stack directory
  /-- A link in it leads nowhere. -/
  | dangling {stack : List Visit} {directory : Visit} {name : FileName} {target : Text}
    {cause : IoError}
    (hchild : (name, .link target) ∈ files.children directory.location)
    (hfind : files.find .follow (directory.child name).path = .error cause) :
    Obstructed files stack directory
  /-- A link in it leads back. -/
  | loop {stack : List Visit} {directory : Visit} {name : FileName} {target : Text}
    {location : Location}
    (hchild : (name, .link target) ∈ files.children directory.location)
    (hfind : files.find .follow (directory.child name).path = .ok (location, .directory))
    (hback : ∃ ancestor ∈ directory :: stack, ancestor.location = location) :
    Obstructed files stack directory
  /-- There is an obstacle below a directory in it. -/
  | inDirectory {stack : List Visit} {directory : Visit} {name : FileName}
    (hchild : (name, .directory) ∈ files.children directory.location)
    (hbelow : Obstructed files (directory :: stack) (directory.child name)) :
    Obstructed files stack directory
  /-- There is an obstacle behind a link in it. -/
  | throughLink {stack : List Visit} {directory : Visit} {name : FileName} {target : Text}
    {location : Location}
    (hchild : (name, .link target) ∈ files.children directory.location)
    (hfind : files.find .follow (directory.child name).path = .ok (location, .directory))
    (hnew : ∀ ancestor ∈ directory :: stack, ancestor.location ≠ location)
    (hbehind : Obstructed files (directory :: stack) { directory.child name with location }) :
    Obstructed files stack directory

variable {files : FileSystem} {links depth : Nat} {stack : List Visit} {directory : Visit}

/-! ### One step of a walk -/

/-- What a walk does with a link, if it may follow `links` more links to directories. -/
def followLink (files : FileSystem) (links : Nat) (stack : List Visit) (child : Visit) :
    Except WalkError (List Trail) :=
  match files.find .follow child.path with
  | .error cause => .error (.io child.path cause)
  | .ok (location, .directory) =>
    match stack.find? fun ancestor => ancestor.location = location with
    | some ancestor => .error (.loop child.path ancestor.path)
    | none => walk files links stack { child with location }
  | .ok _ => .ok [child.trail]

theorem walk_succ : walk files (links + 1) stack directory =
    descend files (followLink files links) (files.depth + 1) stack directory :=
  rfl

/-- What can be wrong with a link: it leads nowhere, it leads back, or something is wrong behind
it. -/
theorem exists_followLink_eq_error_iff {child : Visit} :
    (∃ e, followLink files links stack child = .error e) ↔
      (∃ cause, files.find .follow child.path = .error cause) ∨
        ∃ location, files.find .follow child.path = .ok (location, .directory) ∧
          ((∃ ancestor ∈ stack, ancestor.location = location) ∨
            (∀ ancestor ∈ stack, ancestor.location ≠ location) ∧
              ∃ e, walk files links stack { child with location } = .error e) := by
  rw [followLink]
  cases files.find .follow child.path with
  | error cause => simp
  | ok found =>
    obtain ⟨location, entry⟩ := found
    cases entry with
    | file octets => simp
    | link target => simp
    | directory =>
      simp only [reduceCtorEq, exists_false, false_or, Except.ok.injEq, Prod.mk.injEq, and_true,
        exists_eq_left']
      cases hback : stack.find? fun ancestor => ancestor.location = location with
      | some ancestor =>
        have hlocation : ancestor.location = location := by simpa using List.find?_some hback
        exact iff_of_true ⟨_, rfl⟩ (.inl ⟨ancestor, List.mem_of_find?_eq_some hback, hlocation⟩)
      | none =>
        have hnew : ∀ ancestor ∈ stack, ancestor.location ≠ location := by
          simpa using List.find?_eq_none.1 hback
        refine ⟨fun h => .inr ⟨hnew, h⟩, ?_⟩
        rintro (⟨ancestor, hmem, hlocation⟩ | ⟨-, h⟩)
        · exact absurd hlocation (hnew ancestor hmem)
        · exact h

/-- What can be wrong with a directory: it cannot be opened, or something is wrong below it. -/
theorem exists_descend_eq_error_iff
    {enter : List Visit → Visit → Except WalkError (List Trail)} :
    (∃ e, descend files enter (depth + 1) stack directory = .error e) ↔
      Path.isTooLong directory.path = true ∨
        ∃ name entry, (name, entry) ∈ files.children directory.location ∧
          match entry with
          | .file _ => False
          | .directory =>
            ∃ e, descend files enter depth (directory :: stack) (directory.child name) = .error e
          | .link _ => ∃ e, enter (directory :: stack) (directory.child name) = .error e := by
  rw [descend]
  by_cases hlong : Path.isTooLong directory.path = true
  · rw [if_pos hlong]
    exact iff_of_true ⟨_, rfl⟩ (.inl hlong)
  have hbind : ∀ x : Except WalkError (List (List Trail)),
      (∃ e, (x >>= fun found => .ok found.flatten : Except WalkError (List Trail)) = .error e) ↔
        ∃ e, x = .error e := by
    intro x
    cases x <;> simp [bind, Except.bind]
  rw [if_neg hlong, or_iff_right hlong]
  refine (hbind _).trans (exists_mapM_eq_error_iff.trans ?_)
  rw [Prod.exists]
  refine exists_congr fun name => exists_congr fun entry => and_congr_right fun _ => ?_
  cases entry with
  | file octets =>
    refine iff_of_false ?_ id
    rintro ⟨e, h⟩
    cases h
  | directory => exact Iff.rfl
  | link target => exact Iff.rfl

/-! ### A walk that fails has met an obstacle -/

theorem obstructed_of_descend
    (hwalk : ∀ stack visit, (∃ e, walk files links stack visit = .error e) →
      Obstructed files stack visit)
    (h : ∃ e, descend files (followLink files links) depth stack directory = .error e) :
    Obstructed files stack directory := by
  induction depth generalizing stack directory with
  | zero =>
    obtain ⟨_, h⟩ := h
    cases h
  | succ depth ih =>
    rcases exists_descend_eq_error_iff.1 h with hlong | ⟨name, entry, hchild, hfails⟩
    · exact .tooLong hlong
    cases entry with
    | file octets => cases hfails
    | directory => exact .inDirectory hchild (ih hfails)
    | link target =>
      rcases exists_followLink_eq_error_iff.1 hfails with
        ⟨cause, hfind⟩ | ⟨location, hfind, hback | ⟨hnew, hbehind⟩⟩
      · exact .dangling hchild hfind
      · exact .loop hchild hfind hback
      · exact .throughLink hchild hfind hnew (hwalk _ _ hbehind)

theorem obstructed_of_walk (h : ∃ e, walk files links stack directory = .error e) :
    Obstructed files stack directory := by
  induction links generalizing stack directory with
  | zero =>
    obtain ⟨_, h⟩ := h
    cases h
  | succ links ih => exact obstructed_of_descend (fun stack visit => ih) h

/-! ### A walk fails wherever the obstacle is -/

/-- The entries that lie in no directory that a walk is in. -/
def unentered (files : FileSystem) : (stack : List Visit) → List (Location × Entry)
  | [] => files.entries
  | visit :: stack => (unentered files stack).filter fun (l, _) => l.tail ≠ visit.location

theorem mem_unentered_iff {entry : Location × Entry} :
    entry ∈ unentered files stack ↔
      entry ∈ files.entries ∧ ∀ visit ∈ stack, entry.1.tail ≠ visit.location := by
  induction stack with
  | nil => simp [unentered]
  | cons visit stack ih =>
    rw [unentered, List.mem_filter, ih, List.forall_mem_cons, decide_eq_true_eq]
    tauto

theorem length_unentered_cons_le (visit : Visit) :
    (unentered files (visit :: stack)).length ≤ (unentered files stack).length :=
  List.length_filter_le _ _

/-- A walk that enters a directory for the first time has fewer entries left, if the directory has
any. -/
theorem length_unentered_cons_lt (hentry : files.children directory.location ≠ [])
    (hnew : ∀ visit ∈ stack, visit.location ≠ directory.location) :
    (unentered files (directory :: stack)).length < (unentered files stack).length := by
  obtain ⟨⟨name, entry⟩, hchild⟩ := List.exists_mem_of_ne_nil _ hentry
  refine List.length_filter_lt_length_iff_exists.2 ⟨(name :: directory.location, entry), ?_, ?_⟩
  · exact mem_unentered_iff.2
      ⟨mem_children_iff.1 hchild, fun visit hvisit => (hnew visit hvisit).symm⟩
  · simp

theorem FileSystem.length_le_depth {location : Location} {entry : Entry}
    (h : (location, entry) ∈ files.entries) : location.length ≤ files.depth := by
  have hlength : location.length ∈ files.entries.map fun (l, _) => l.length :=
    List.mem_map.2 ⟨_, h, rfl⟩
  rw [depth, List.foldl_max_eq_max (List.ne_nil_of_mem hlength)]
  exact (List.le_max_of_mem hlength).trans (Nat.le_max_right _ _)

theorem FileSystem.length_lt_depth_of_mem_children {location : Location} {name : FileName}
    {entry : Entry} (h : (name, entry) ∈ files.children location) :
    location.length < files.depth :=
  length_le_depth (mem_children_iff.1 h)

/-- **A walk that meets an obstacle fails**, if it can go down far enough and follow enough links.
A way down without links gets longer with each name, and no location exceeds the depth. A link is
followed to a directory that is new, and then fewer entries are left. -/
theorem Obstructed.exists_descend_eq_error (h : Obstructed files stack directory)
    (hdepth : files.depth ≤ depth + directory.location.length)
    (hlinks : files.children directory.location ≠ [] →
      (unentered files (directory :: stack)).length < links) :
    ∃ e, descend files (followLink files links) (depth + 1) stack directory = .error e := by
  induction h generalizing links depth with
  | tooLong hlong => exact exists_descend_eq_error_iff.2 (.inl hlong)
  | dangling hchild hfind =>
    exact exists_descend_eq_error_iff.2 (.inr ⟨_, _, hchild,
      exists_followLink_eq_error_iff.2 (.inl ⟨_, hfind⟩)⟩)
  | loop hchild hfind hback =>
    exact exists_descend_eq_error_iff.2 (.inr ⟨_, _, hchild,
      exists_followLink_eq_error_iff.2 (.inr ⟨_, hfind, .inl hback⟩)⟩)
  | @inDirectory stack directory name hchild _ ih =>
    have hleft := hlinks (List.ne_nil_of_mem hchild)
    have hlength : (directory.child name).location.length = directory.location.length + 1 := rfl
    have hshort := length_lt_depth_of_mem_children hchild
    obtain ⟨depth, rfl⟩ : ∃ fewer, depth = fewer + 1 :=
      Nat.exists_eq_succ_of_ne_zero (by omega)
    refine exists_descend_eq_error_iff.2 (.inr ⟨_, _, hchild, ih (by omega) fun _ => ?_⟩)
    exact (length_unentered_cons_le _).trans_lt hleft
  | @throughLink stack directory name target location hchild hfind hnew _ ih =>
    have hleft := hlinks (List.ne_nil_of_mem hchild)
    obtain ⟨links, rfl⟩ : ∃ fewer, links = fewer + 1 :=
      Nat.exists_eq_succ_of_ne_zero (Nat.ne_zero_of_lt hleft)
    refine exists_descend_eq_error_iff.2 (.inr ⟨_, _, hchild,
      exists_followLink_eq_error_iff.2 (.inr ⟨_, hfind, .inr ⟨hnew, ?_⟩⟩)⟩)
    rw [walk_succ]
    refine ih (Nat.le_add_right _ _) fun hentry => ?_
    exact (length_unentered_cons_lt hentry hnew).trans_le (Nat.le_of_lt_succ hleft)

/-- **A walk fails exactly if it meets an obstacle.** -/
theorem exists_walk_eq_error_iff :
    (∃ e, walk files (files.entries.length + 2) [] directory = .error e) ↔
      Obstructed files [] directory := by
  refine ⟨obstructed_of_walk, fun h => ?_⟩
  rw [walk_succ]
  refine h.exists_descend_eq_error (Nat.le_add_right _ _) fun _ => ?_
  exact Nat.lt_succ_of_le (length_unentered_cons_le directory)

/-! ### The root -/

/-- What can be wrong with a root: it leads nowhere, or to a directory with an obstacle. -/
def ObstructedRoot (files : FileSystem) (root : Text) : Prop :=
  (∃ cause, files.find .follow root = .error cause) ∨
    ∃ location, files.find .follow root = .ok (location, .directory) ∧
      Obstructed files [] ⟨root, location, []⟩

variable {root : Text}

theorem exists_walkRoot_eq_error_iff :
    (∃ e, walkRoot files root = .error e) ↔ ObstructedRoot files root := by
  rw [walkRoot, ObstructedRoot]
  have hkeep := @find_keep_cases files root
  cases hfind : files.find .follow root with
  | error cause =>
    rw [hfind] at hkeep
    rcases hkeep with ⟨l, target, -, hkeep⟩ | hkeep <;> simp [hkeep]
  | ok found =>
    obtain ⟨location, entry⟩ := found
    rw [hfind] at hkeep
    cases entry <;> rcases hkeep with ⟨l, target, -, hkeep⟩ | hkeep <;>
      simp [hkeep, exists_walk_eq_error_iff]

/-- **Discovery fails exactly if something is wrong with the root.** -/
theorem exists_discover_eq_error_iff {extensions : List Text} :
    (∃ e, discover files root extensions = .error e) ↔ ObstructedRoot files root := by
  rw [discover]
  split
  · rename_i hfile
    refine iff_of_false ?_ ?_
    · rintro ⟨e, h⟩
      cases h
    · rw [isFile] at hfile
      split at hfile
      · rename_i hfind
        simp [ObstructedRoot, hfind]
      · cases hfile
  · rw [← exists_walkRoot_eq_error_iff]
    cases walkRoot files root <;> simp [bind, Except.bind, pure, Except.pure]

end Phrasebook
