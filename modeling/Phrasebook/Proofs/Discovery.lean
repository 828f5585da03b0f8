import Phrasebook.Proofs.Lists
import Phrasebook.Proofs.Octets
import Phrasebook.Proofs.Resolution
import Phrasebook.Tree.Discovery
/-!
# What discovery finds

A walk goes down a directory child by child. What it finds below a child passes through that child,
and no directory has two children of one name, so no document is found twice, links or not. Where
there are no links, the names of a trail lead from the root of the walk to a regular file.

## Main definitions

* `FileSystem.LinkFree`: there are no symbolic links.
* `Extends`: trails are distinct, and go on from a common start.

## Main results

* `descend_eq_ok`: all that a step down can do.
* `nodup_discover`, `pairwise_precedes_discover`: documents are found once, and in order.
* `descend_of_linkFree`: without links, the names of a trail lead to a regular file.
-/

namespace Phrasebook

open FileSystem

/-! ### The children of a directory -/

namespace FileSystem

variable {files : FileSystem} {location : Location} {name : FileName} {entry : Entry}

theorem get?_eq_some_iff (hne : location ≠ []) :
    files.get? location = some entry ↔ (location, entry) ∈ files.entries := by
  rw [get?, if_neg hne, Option.map_eq_some_iff]
  simp only [find?_key_eq_some_iff files.nodup, Prod.exists]
  grind

theorem mem_children_iff :
    (name, entry) ∈ files.children location ↔ (name :: location, entry) ∈ files.entries := by
  rw [children, List.mem_filterMap]
  constructor
  · rintro ⟨⟨l, e⟩, hmem, hchild⟩
    cases l with
    | nil => cases hchild
    | cons first parent =>
      simp only at hchild
      split at hchild
      · rename_i hparent
        cases hchild
        exact hparent ▸ hmem
      · cases hchild
  · intro hmem
    exact ⟨_, hmem, if_pos rfl⟩

theorem get?_of_mem_children (h : (name, entry) ∈ files.children location) :
    files.get? (name :: location) = some entry :=
  (get?_eq_some_iff (List.cons_ne_nil _ _)).2 (mem_children_iff.1 h)

/-- No directory has two children of one name. -/
theorem nodup_children (files : FileSystem) (location : Location) :
    ((files.children location).map Prod.fst).Nodup := by
  rw [List.Nodup, List.pairwise_map, children, List.pairwise_filterMap]
  refine (List.pairwise_map.1 files.nodup).imp ?_
  rintro ⟨l, e⟩ ⟨l', e'⟩ hne child hchild child' hchild' hname
  cases l with
  | nil => cases hchild
  | cons first parent =>
    cases l' with
    | nil => cases hchild'
    | cons first' parent' => grind

/-- There are no symbolic links. -/
def LinkFree (files : FileSystem) : Prop :=
  ∀ location target, files.get? location ≠ some (.link target)

theorem linkFree_of_forall_entries
    (h : ∀ location target, (location, Entry.link target) ∉ files.entries) : files.LinkFree := by
  intro location target hget
  have hne : location ≠ [] := by
    rintro rfl
    cases hget
  exact h location target ((get?_eq_some_iff hne).1 hget)

end FileSystem

/-! ### The order of trails -/

namespace Trail

theorem precedes_iff {a b : Trail} :
    a.precedes b = true ↔ a.map FileName.octets ≤ b.map FileName.octets :=
  decide_eq_true_iff

theorem precedes_trans {a b c : Trail} (hab : a.precedes b = true) (hbc : b.precedes c = true) :
    a.precedes c = true :=
  precedes_iff.2 (List.le_trans (precedes_iff.1 hab) (precedes_iff.1 hbc))

theorem precedes_total (a b : Trail) : a.precedes b = true ∨ b.precedes a = true := by
  rw [precedes_iff, precedes_iff]
  exact List.le_total _ _

theorem octets_injective : Function.Injective FileName.octets := by
  intro a b h
  cases a
  cases b
  cases Utf8.encode_injective h
  rfl

/-- Only equal trails are tied. -/
theorem eq_of_precedes {a b : Trail} (hab : a.precedes b = true) (hba : b.precedes a = true) :
    a = b :=
  List.map_injective_iff.2 octets_injective
    (List.le_antisymm (precedes_iff.1 hab) (precedes_iff.1 hba))

/-- Sorting things by their trails puts them into the order of trails. -/
theorem pairwise_mergeSort_precedes {α : Type} (trail : α → Trail) (xs : List α) :
    (xs.mergeSort fun a b => (trail a).precedes (trail b)).Pairwise fun a b =>
      (trail a).precedes (trail b) = true := by
  refine List.pairwise_mergeSort ?_ ?_ xs
  · intro a b c hab hbc
    exact precedes_trans hab hbc
  · intro a b
    rw [Bool.or_eq_true]
    exact precedes_total (trail a) (trail b)

end Trail

/-! ### One step down -/

variable {files : FileSystem} {enter : List Visit → Visit → Except WalkError (List Trail)}
  {depth : Nat} {stack : List Visit} {directory : Visit} {trails : List Trail}

/-- **All that a step down can do.** Every child adds what is found there: a file adds itself, a
directory what is found below it, and a link what it leads to. -/
theorem descend_eq_ok (h : descend files enter (depth + 1) stack directory = .ok trails) :
    ∃ found : FileName × Entry → List Trail,
      trails = (files.children directory.location).flatMap found ∧
        ∀ name entry, (name, entry) ∈ files.children directory.location →
          match entry with
          | .file _ => found (name, entry) = [directory.trail ++ [name]]
          | .directory =>
            descend files enter depth (directory :: stack) (directory.child name) =
              .ok (found (name, entry))
          | .link _ =>
            enter (directory :: stack) (directory.child name) = .ok (found (name, entry)) := by
  rw [descend] at h
  split at h
  · cases h
  obtain ⟨lists, hlists, h⟩ := exists_eq_ok_of_bind h
  cases h
  obtain ⟨found, rfl, hfound⟩ := exists_map_of_mapM hlists
  refine ⟨found, List.flatMap_def.symm, ?_⟩
  intro name entry hmem
  have hchild := hfound _ hmem
  cases entry with
  | file octets => exact (Except.ok.inj hchild).symm
  | directory => exact hchild
  | link target => exact hchild

/-! ### Trails from a common start -/

/-- The trails are distinct, and all of them begin with `start`. -/
structure Extends (start : Trail) (trails : List Trail) : Prop where
  /-- No trail is there twice. -/
  nodup : trails.Nodup
  /-- Every trail begins with `start`. -/
  passes : ∀ trail ∈ trails, start <+: trail

/-- Trails through children of different names are different. -/
theorem Extends.flatMap {start : Trail} {children : List (FileName × Entry)}
    {found : FileName × Entry → List Trail} (hnames : (children.map Prod.fst).Nodup)
    (h : ∀ child ∈ children, Extends (start ++ [child.1]) (found child)) :
    Extends start (children.flatMap found) := by
  refine ⟨List.nodup_flatMap.2 ⟨fun child hchild => (h child hchild).nodup, ?_⟩, ?_⟩
  · refine (List.pairwise_map.1 hnames).imp_of_mem ?_
    intro a b ha hb hne trail htraila htrailb
    have hsame : start ++ [a.1] = start ++ [b.1] :=
      (List.prefix_of_prefix_length_le ((h a ha).passes trail htraila)
        ((h b hb).passes trail htrailb) (by simp)).eq_of_length (by simp)
    exact hne (List.singleton_inj.1 (List.append_cancel_left hsame))
  · intro trail htrail
    obtain ⟨child, hchild, hfound⟩ := List.mem_flatMap.1 htrail
    exact (List.prefix_append _ _).trans ((h child hchild).passes trail hfound)

theorem descend_extends
    (henter : ∀ stack child trails, enter stack child = .ok trails → Extends child.trail trails)
    (h : descend files enter depth stack directory = .ok trails) :
    Extends directory.trail trails := by
  induction depth generalizing stack directory trails with
  | zero =>
    cases h
    exact ⟨List.nodup_nil, fun trail htrail => nomatch htrail⟩
  | succ depth ih =>
    obtain ⟨found, rfl, hfound⟩ := descend_eq_ok h
    refine Extends.flatMap (nodup_children files directory.location) ?_
    rintro ⟨name, entry⟩ hchild
    have hfound := hfound name entry hchild
    cases entry with
    | file octets =>
      rw [hfound]
      refine ⟨List.nodup_singleton _, fun trail htrail => ?_⟩
      exact List.mem_singleton.1 htrail ▸ List.prefix_rfl
    | directory => exact ih hfound
    | link target => exact henter _ _ _ hfound

theorem walk_extends {links : Nat} (h : walk files links stack directory = .ok trails) :
    Extends directory.trail trails := by
  induction links generalizing stack directory trails with
  | zero =>
    cases h
    exact ⟨List.nodup_nil, fun trail htrail => nomatch htrail⟩
  | succ links ih =>
    refine descend_extends ?_ h
    intro stack child trails hchild
    split at hchild
    · cases hchild
    · split at hchild
      · cases hchild
      · have hwalk := ih hchild
        exact hwalk
    · cases hchild
      exact ⟨List.nodup_singleton _, fun trail htrail =>
        List.mem_singleton.1 htrail ▸ List.prefix_rfl⟩

theorem walkRoot_extends {root : Text} (h : walkRoot files root = .ok trails) :
    Extends [] trails := by
  have hnone : Extends [] [] := ⟨List.nodup_nil, fun trail htrail => nomatch htrail⟩
  rw [walkRoot] at h
  split at h
  · cases h
  · exact walk_extends h
  · cases h
    exact hnone
  · split at h
    · cases h
    · exact walk_extends h
    · cases h
      exact hnone

/-! ### The documents -/

variable {root : Text} {extensions : List Text}

theorem discover_eq_ok (h : discover files root extensions = .ok trails) :
    files.isFile root = true ∧ trails = [[]] ∨
      files.isFile root = false ∧ ∃ all, walkRoot files root = .ok all ∧
        trails = (all.filter (Trail.isWanted extensions)).mergeSort Trail.precedes := by
  rw [discover] at h
  split at h
  · rename_i hfile
    cases h
    exact .inl ⟨hfile, rfl⟩
  · rename_i hfile
    obtain ⟨all, hall, h⟩ := exists_eq_ok_of_bind h
    cases h
    exact .inr ⟨Bool.eq_false_iff.2 hfile, all, hall, rfl⟩

/-- What a walk finds in the order of trails is discovered in that order. -/
theorem discover_of_pairwise {all : List Trail} (hfile : files.isFile root = false)
    (hall : walkRoot files root = .ok all)
    (hsorted : (all.filter (Trail.isWanted extensions)).Pairwise fun a b => a.precedes b = true) :
    discover files root extensions = .ok (all.filter (Trail.isWanted extensions)) := by
  rw [discover, if_neg (Bool.eq_false_iff.1 hfile), hall]
  exact congrArg Except.ok (List.mergeSort_of_pairwise hsorted)

/-- **No document is found twice.** -/
theorem nodup_discover (h : discover files root extensions = .ok trails) : trails.Nodup := by
  rcases discover_eq_ok h with ⟨-, rfl⟩ | ⟨-, all, hall, rfl⟩
  · exact List.nodup_singleton _
  · exact (List.mergeSort_perm _ _).nodup_iff.2 ((walkRoot_extends hall).nodup.filter _)

/-- **Documents are found in the order of their trails.** -/
theorem pairwise_precedes_discover (h : discover files root extensions = .ok trails) :
    trails.Pairwise fun a b => a.precedes b = true := by
  rcases discover_eq_ok h with ⟨-, rfl⟩ | ⟨-, all, -, rfl⟩
  · exact List.pairwise_singleton _ _
  · exact Trail.pairwise_mergeSort_precedes id _

/-! ### Discovery without links -/

theorem descend_of_linkFree (hlinks : files.LinkFree) {links : Nat}
    (h : descend files enter depth stack directory = .ok trails) {trail : Trail}
    (htrail : trail ∈ trails) :
    ∃ names octets, trail = directory.trail ++ names ∧
      resolveFrom files .follow links directory.location (names.map .name) =
        .ok (.present (names.reverse ++ directory.location) (.file octets)) := by
  induction depth generalizing stack directory trails with
  | zero =>
    cases h
    cases htrail
  | succ depth ih =>
    obtain ⟨found, rfl, hfound⟩ := descend_eq_ok h
    obtain ⟨⟨name, entry⟩, hchild, hmem⟩ := List.mem_flatMap.1 htrail
    have hfound := hfound name entry hchild
    have hget := get?_of_mem_children hchild
    cases entry with
    | link target => exact absurd hget (hlinks _ _)
    | file octets =>
      rw [hfound, List.mem_singleton] at hmem
      refine ⟨[name], octets, hmem, ?_⟩
      rw [List.map_cons, List.map_nil, resolveFrom_name, hget]
      rfl
    | directory =>
      obtain ⟨names, octets, rfl, hnames⟩ := ih hfound hmem
      refine ⟨name :: names, octets, List.append_assoc _ _ _, ?_⟩
      rw [List.map_cons, resolveFrom_name, hget, refusesSlashes_follow, if_neg Bool.false_ne_true]
      simp only [List.reverse_cons, List.append_assoc, List.singleton_append]
      exact hnames

end Phrasebook
