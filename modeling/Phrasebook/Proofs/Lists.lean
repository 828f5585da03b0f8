import Mathlib.Data.List.Nodup
import Mathlib.Data.List.Zip
/-!
# Look-ups and lists of results

A list whose keys are distinct is looked up by membership, and a list of results that all succeed is
the list of what they have come to.

## Main results

* `find?_key_eq_some_iff`: a look-up by a key that no two elements share.
* `zipIdx_map_swap`: the elements of a list behind their positions.
* `exists_map_of_mapM`: what a list of computations comes to if all of them succeed.
* `exists_mapM_eq_error_iff`: they do not if one of them fails.
-/

namespace Phrasebook

variable {α β κ ε : Type}

theorem find?_key_eq_some_iff [DecidableEq κ] {key : α → κ} {xs : List α}
    (h : (xs.map key).Nodup) {k : κ} {x : α} :
    (xs.find? fun y => key y = k) = some x ↔ x ∈ xs ∧ key x = k := by
  constructor
  · intro hfound
    exact ⟨List.mem_of_find?_eq_some hfound, by simpa using List.find?_some hfound⟩
  · rintro ⟨hmem, rfl⟩
    cases hfound : xs.find? fun y => key y = key x with
    | none => exact absurd (decide_eq_true rfl) (List.find?_eq_none.1 hfound _ hmem)
    | some y =>
      have hkey : key y = key x := by simpa using List.find?_some hfound
      exact congrArg some (List.inj_on_of_nodup_map h (List.mem_of_find?_eq_some hfound) hmem hkey)

/-- Positions are keys like others. -/
theorem zipIdx_map_swap (xs : List α) :
    xs.zipIdx.map Prod.swap = (List.range xs.length).zip xs := by
  rw [List.zipIdx_eq_zip_range', List.zip_swap, List.range_eq_range']

theorem exists_eq_ok_of_bind {x : Except ε α} {f : α → Except ε β} {b : β}
    (h : x >>= f = .ok b) : ∃ a, x = .ok a ∧ f a = .ok b := by
  cases x with
  | error e => cases h
  | ok a => exact ⟨a, rfl, h⟩

/-- A pair whose first component is known. -/
theorem exists_eq_ok_of_map_fst {x : Except ε (α × β)} {a : α} (h : x.map Prod.fst = .ok a) :
    ∃ b, x = .ok (a, b) := by
  cases x with
  | error e => cases h
  | ok pair =>
    obtain ⟨a, b⟩ := pair
    cases h
    exact ⟨b, rfl⟩

theorem exists_map_of_mapM [Inhabited β] {f : α → Except ε β} {xs : List α} {ys : List β}
    (h : xs.mapM f = .ok ys) : ∃ g : α → β, ys = xs.map g ∧ ∀ x ∈ xs, f x = .ok (g x) := by
  refine ⟨fun x => (f x).toOption.getD default, ?_⟩
  induction xs generalizing ys with
  | nil =>
    cases h
    exact ⟨rfl, fun x hx => nomatch hx⟩
  | cons x xs ih =>
    rw [List.mapM_cons] at h
    obtain ⟨y, hx, h⟩ := exists_eq_ok_of_bind h
    obtain ⟨rest, hxs, h⟩ := exists_eq_ok_of_bind h
    cases h
    obtain ⟨rfl, hall⟩ := ih hxs
    refine ⟨by rw [List.map_cons, hx]; rfl, List.forall_mem_cons.2 ⟨?_, hall⟩⟩
    simp [hx, Except.toOption]

theorem exists_mapM_eq_error_iff {f : α → Except ε β} {xs : List α} :
    (∃ e, xs.mapM f = .error e) ↔ ∃ x ∈ xs, ∃ e, f x = .error e := by
  induction xs with
  | nil => exact iff_of_false (fun ⟨_, h⟩ => nomatch h) (fun ⟨_, h, _⟩ => nomatch h)
  | cons x xs ih =>
    rw [List.mapM_cons, List.exists_mem_cons_iff, ← ih]
    cases f x with
    | error e => exact iff_of_true ⟨e, rfl⟩ (.inl ⟨e, rfl⟩)
    | ok y => cases xs.mapM f <;> simp [bind, Except.bind, pure, Except.pure]

end Phrasebook
