import Mathlib.Data.List.Basic
import Mathlib.Data.Nat.Find
import Mathlib.Logic.Relation

/-! Shared access to one secret. Credentials hold seats, a seat keeps its number for good,
and seats are taken back one by one but never the last active one. -/

namespace SoteriaAegis.Access
variable {α : Type}

theorem length_filter_modify (keep : α → Bool) (change : α → α) (values : List α) (i : Nat) :
    (values.filter keep).length ≤ ((values.modify i change).filter keep).length + 1 := by
  induction values generalizing i with
  | nil => simp
  | cons value others ih =>
    cases i with
    | zero =>
      have same : ((others.filter keep).length) ≤ ((change value :: others).filter keep).length := by
        rw [List.filter_cons]
        split
        · exact Nat.le_succ _
        · exact Nat.le_refl _
      rw [List.modify_zero_cons, List.filter_cons]
      split
      · exact Nat.succ_le_succ same
      · exact Nat.le_succ_of_le same
    | succ i =>
      rw [List.modify_succ_cons, List.filter_cons, List.filter_cons]
      split
      · exact Nat.succ_le_succ (ih i)
      · exact ih i

/-- The seats in the order they were given, each with whether it is still active. -/
abbrev Roster (α : Type) : Type := List (α × Bool)

namespace Roster

def Holds (roster : Roster α) (credential : α) (seat : Nat) : Prop := roster[seat]? = some (credential, true)

def Admits (roster : Roster α) (credential : α) : Prop := ∃ seat, roster.Holds credential seat

/-- The first of the active seats that a credential holds. -/
def First (roster : Roster α) (credential : α) (seat : Nat) : Prop :=
  roster.Holds credential seat ∧ ∀ earlier < seat, ¬roster.Holds credential earlier

def active (roster : Roster α) : Nat := (roster.filter Prod.snd).length

def enroll (roster : Roster α) (credential : α) : Roster α := roster ++ [(credential, true)]

def revoke (roster : Roster α) (seat : Nat) : Roster α := roster.modify seat fun entry => (entry.1, false)

theorem admits_iff_first (roster : Roster α) (credential : α) :
    roster.Admits credential ↔ ∃ seat, roster.First credential seat := by
  classical
  constructor
  · intro admitted
    exact ⟨Nat.find admitted, Nat.find_spec admitted, fun earlier before => Nat.find_min admitted before⟩
  · intro ⟨seat, first⟩
    exact ⟨seat, first.1⟩

theorem holds_enroll_iff (roster : Roster α) (newcomer credential : α) (seat : Nat) :
    (roster.enroll newcomer).Holds credential seat ↔
      roster.Holds credential seat ∨ seat = roster.length ∧ credential = newcomer := by
  unfold Holds enroll
  by_cases old : seat < roster.length
  · rw [List.getElem?_append_left old]
    have other : seat ≠ roster.length := Nat.ne_of_lt old
    simp only [other, false_and, or_false]
  · have late := Nat.le_of_not_lt old
    rw [List.getElem?_append_right late, List.getElem?_eq_none late]
    by_cases next : seat = roster.length
    · simp [next, eq_comm]
    · have beyond : [(newcomer, true)].length ≤ seat - roster.length := by
        rw [List.length_singleton]
        omega
      rw [List.getElem?_eq_none beyond]
      simp [next]

theorem active_pos_iff (roster : Roster α) : 0 < roster.active ↔ ∃ credential, roster.Admits credential := by
  unfold active Admits Holds
  rw [List.length_pos_iff_exists_mem]
  constructor
  · intro ⟨entry, member⟩
    obtain ⟨present, on⟩ := List.mem_filter.mp member
    obtain ⟨seat, found⟩ := List.getElem?_of_mem present
    exact ⟨entry.1, seat, by rw [found, ← on]⟩
  · intro ⟨credential, seat, found⟩
    exact ⟨(credential, true), List.mem_filter.mpr ⟨List.mem_of_getElem? found, rfl⟩⟩

theorem active_revoke (roster : Roster α) (seat : Nat) : roster.active ≤ (roster.revoke seat).active + 1 :=
  length_filter_modify Prod.snd _ roster seat

/-- What can happen to the seats of a secret; `none` while it has none. -/
inductive Step (limit : Nat) : Option (Roster α) → Option (Roster α) → Prop
  | stay (held : Option (Roster α)) : Step limit held held
  | establish (held : Option (Roster α)) (credential : α) : Step limit held (some [(credential, true)])
  | enroll (roster : Roster α) (credential : α) (room : roster.length < limit) :
      Step limit (some roster) (some (roster.enroll credential))
  | revoke (roster : Roster α) (seat : Nat) (several : 1 < roster.active) :
      Step limit (some roster) (some (roster.revoke seat))
  | dissolve (held : Option (Roster α)) : Step limit held none

structure Staffed (limit : Nat) (roster : Roster α) : Prop where
  bounded : roster.length ≤ limit
  manned : 0 < roster.active

theorem Step.staffed {limit : Nat} (positive : 0 < limit) {before after : Option (Roster α)}
    (step : Step limit before after) (staffed : ∀ roster ∈ before, Staffed limit roster) :
    ∀ roster ∈ after, Staffed limit roster := by
  intro roster member
  cases step with
  | stay => exact staffed roster member
  | establish _ credential =>
    cases member
    exact ⟨positive, Nat.one_pos⟩
  | enroll old credential room =>
    cases member
    obtain ⟨someone, seat, held⟩ := (active_pos_iff old).mp (staffed old rfl).manned
    refine ⟨?_, (active_pos_iff _).mpr ⟨someone, seat, (holds_enroll_iff old _ _ _).mpr (Or.inl held)⟩⟩
    rw [Roster.enroll, List.length_append]
    exact room
  | revoke old seat several =>
    cases member
    have cost := active_revoke old seat
    refine ⟨?_, by omega⟩
    rw [Roster.revoke, List.length_modify]
    exact (staffed old rfl).bounded
  | dissolve => cases member

/-- Someone is admitted after every run of steps that leaves a roster. -/
theorem run_admits {limit : Nat} (positive : 0 < limit) {after : Option (Roster α)}
    (steps : Relation.ReflTransGen (Step limit) none after) :
    ∀ roster ∈ after, Staffed limit roster ∧ ∃ credential, roster.Admits credential := by
  have staffed : ∀ roster ∈ after, Staffed limit roster := by
    induction steps with
    | refl =>
      intro roster member
      cases member
    | tail _ step ih => exact step.staffed positive ih
  intro roster member
  exact ⟨staffed roster member, (active_pos_iff roster).mp (staffed roster member).manned⟩

end Roster
end SoteriaAegis.Access
