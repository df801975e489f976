import Mathlib.Data.List.Basic

/-! Entries of a list modified one after another, by an idempotent change. -/

namespace SoteriaAegis.Rust
variable {α : Type} (change : α → α)

def modifyAll (xs : List α) (indices : List Nat) : List α := indices.foldl (fun xs i => xs.modify i change) xs

theorem modifyAll_cons (xs : List α) (i : Nat) (indices : List Nat) :
    modifyAll change xs (i :: indices) = modifyAll change (xs.modify i change) indices := rfl

section
variable {change} (idempotent : ∀ x, change (change x) = change x)
include idempotent

theorem modifyAll_eq_mapIdx (xs : List α) (indices : List Nat) :
    modifyAll change xs indices = xs.mapIdx fun i x => if i ∈ indices then change x else x := by
  induction indices generalizing xs with
  | nil =>
    apply List.ext_getElem?
    intro i
    simp [modifyAll]
  | cons first others ih =>
    rw [modifyAll_cons, ih]
    apply List.ext_getElem?
    intro i
    rw [List.getElem?_mapIdx, List.getElem?_mapIdx, List.getElem?_modify]
    cases xs[i]? with
    | none => rfl
    | some x =>
      by_cases named : i ∈ others
      · by_cases same : first = i
        · simp only [named, same, if_true, Option.map_some, Functor.map, List.mem_cons_self, idempotent]
        · simp only [named, same, if_true, if_false, Option.map_some, Functor.map, List.mem_cons, or_true]
      · by_cases same : first = i
        · simp only [named, same, if_true, if_false, Option.map_some, Functor.map, List.mem_cons_self]
        · have other : i ≠ first := fun equal => same equal.symm
          simp only [named, same, other, if_false, Option.map_some, Functor.map, List.mem_cons, or_self]

end

theorem length_filter_modify_out (keep : α → Bool) {xs : List α} {i : Nat} {x : α} (found : xs[i]? = some x)
    (kept : keep x = true) (dropped : keep (change x) = false) :
    (xs.filter keep).length = ((xs.modify i change).filter keep).length + 1 := by
  induction xs generalizing i with
  | nil => cases found
  | cons head others ih =>
    cases i with
    | zero =>
      cases found
      rw [List.modify_zero_cons, List.filter_cons_of_pos kept, List.filter_cons_of_neg (by rw [dropped]; decide)]
      exact List.length_cons
    | succ i =>
      have shorter := ih found
      rw [List.modify_succ_cons, List.filter_cons, List.filter_cons]
      split
      · rw [List.length_cons, List.length_cons, shorter]
      · exact shorter

end SoteriaAegis.Rust
