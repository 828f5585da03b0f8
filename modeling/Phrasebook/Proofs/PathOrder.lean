import Phrasebook.Proofs.DocumentPath
/-!
# The order of paths

Paths are compared part by part and not symbol by symbol, so `a/b.md` comes before `a-b.md`. Empty
parts do not count, and neither do parts that stay in a directory, unless a path begins with one.
The paths of the documents under a root begin with the parts of the root, all of them, and go on
with the names of their trails. So they are in the order of the trails.

## Main definitions

* `Path.Component`: what a part of a path is compared as, with the order `Path.Component.Before`.
* `Path.components`: what a path is compared as.
* `Path.Before`: the order of paths.

## Main results

* `Path.components_joinAll`: a path that is continued by names, part by part.
* `Trail.before_of_precedes`: the paths of documents are in the order of their trails.
-/

namespace Phrasebook

namespace Path

/-- What a part of a path is compared as. -/
inductive Component where
  /-- The slash that an absolute path begins with. -/
  | root
  /-- The part `.` at the beginning of a path. -/
  | here
  /-- The part `..`. -/
  | up
  /-- A name, by its octets. -/
  | name (octets : List UInt8)
  deriving DecidableEq

namespace Component

/-- The place of the component among those of other kinds. -/
def rank : Component → Nat
  | root => 0
  | here => 1
  | up => 2
  | name _ => 3

/-- The order of components: by their kinds, and of names by their octets. -/
def Before : Component → Component → Prop
  | name a, name b => a < b
  | a, b => a.rank < b.rank

/-- The component of a part that does not stay where it is. -/
def ofPart? (part : Text) : Option Component :=
  if part = [] ∨ part = ['.'] then none
  else if part = ['.', '.'] then some up
  else some (name (Utf8.encode part))

end Component

/-- How a path begins, if not with a name or `..`. -/
def opening (path : Text) : List Component :=
  if isAbsolute path then [.root] else if (parts path).head? = some ['.'] then [.here] else []

/-- What a path is compared as. -/
def components (path : Text) : List Component :=
  opening path ++ (parts path).filterMap Component.ofPart?

/-- The order of paths: component by component. -/
def Before (a b : Text) : Prop :=
  List.Lex Component.Before (components a) (components b)

/-- Slashes are not compared: `a/b` comes before `a-b`, although the octet of `-` is the lesser
one. -/
example : Before ['a', '/', 'b'] ['a', '-', 'b'] :=
  .rel (show ([97] : List UInt8) < [97, 45, 98] by decide)

/-! ### A path that is continued -/

theorem Component.ofPart?_text (name : FileName) :
    ofPart? name.text = some (.name name.octets) := by
  obtain ⟨hne, -, -, hhere, hup, -⟩ := name.valid
  rw [ofPart?, if_neg (by simp [hne, hhere]), if_neg hup]
  rfl

theorem filterMap_parts_text (name : FileName) :
    (parts name.text).filterMap Component.ofPart? = [.name name.octets] := by
  rw [parts_of_not_mem name.valid.2.1, List.filterMap_cons_some (Component.ofPart?_text name)]
  rfl

theorem head?_parts_append (front back : Text) :
    (parts (front ++ '/' :: back)).head? = (parts front).head? := by
  rw [parts_append, List.head?_append_of_ne_nil _ (parts_ne_nil front)]

/-- A path that is continued by a name is compared by its own components and then by the name. A
slash at its end is the one that parts the name from it. -/
theorem components_join {path : Text} (hpath : path ≠ []) (name : FileName) :
    components (join path name.text) = components path ++ [.name name.octets] := by
  rw [components, opening, isAbsolute_join hpath, components, opening]
  by_cases hslash : path.getLast? = some '/'
  · obtain ⟨front, rfl⟩ := List.getLast?_eq_some_iff.1 hslash
    have hjoin : join (front ++ ['/']) name.text = front ++ '/' :: name.text := by
      rw [join, if_pos (Or.inr hslash), List.append_assoc, List.singleton_append]
    have hempty : (parts ([] : Text)).filterMap Component.ofPart? = [] := rfl
    rw [hjoin, head?_parts_append, head?_parts_append, parts_append, parts_append,
      List.filterMap_append, List.filterMap_append, filterMap_parts_text, hempty, List.append_nil,
      List.append_assoc]
  · have hjoin : join path name.text = path ++ '/' :: name.text := by
      rw [join, if_neg (not_or.2 ⟨hpath, hslash⟩)]
    rw [hjoin, head?_parts_append, parts_append, List.filterMap_append, filterMap_parts_text,
      List.append_assoc]

/-- **A path that is continued by names is compared by its own components and then by the
names.** -/
theorem components_joinAll {path : Text} (hpath : path ≠ []) (names : List FileName) :
    components (joinAll path names) =
      components path ++ names.map fun name => .name name.octets := by
  induction names generalizing path with
  | nil => simp [joinAll]
  | cons name names ih =>
    have hrest := ih (join_ne_nil hpath name.text)
    rw [components_join hpath, List.append_assoc] at hrest
    exact hrest

end Path

/-- **The paths of documents are in the order of their trails.** -/
theorem Trail.before_of_precedes {root : Text} (hroot : root ≠ []) {a b : Trail}
    (h : a.precedes b = true) (hne : a ≠ b) :
    Path.Before (Path.joinAll root a) (Path.joinAll root b) := by
  have hlt : List.Lex (· < ·) (a.map FileName.octets) (b.map FileName.octets) := by
    rcases List.le_iff_lt_or_eq.1 (precedes_iff.1 h) with hlt | heq
    · exact hlt
    · exact absurd (List.map_injective_iff.2 octets_injective heq) hne
  have hnames {s t : List (List UInt8)} (hlex : List.Lex (· < ·) s t) :
      List.Lex Path.Component.Before (s.map .name) (t.map .name) := by
    induction hlex with
    | nil => exact .nil
    | rel hfirst => exact .rel hfirst
    | cons _ ih => exact .cons ih
  rw [Path.Before, Path.components_joinAll hroot, Path.components_joinAll hroot]
  have hlex := List.Lex.append_left _ (hnames hlt) (Path.components root)
  rwa [List.map_map, List.map_map] at hlex

end Phrasebook
