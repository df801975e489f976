import SoteriaAegis.Slots.Members
import SoteriaAegis.Rust.Lists

/-! Several revocations one after another. While a slot that nobody names stays enabled no
call is refused, and the table they leave depends on the indices named and on nothing else. -/

namespace SoteriaAegis.Slots
open Rust Crypto

def KeySlot.retired (slot : KeySlot) : KeySlot := if slot.isEnabled then slot.revoked else slot

theorem KeySlot.retired_disabled (slot : KeySlot) : slot.retired.isEnabled = false := by
  unfold retired
  cases enabled : slot.isEnabled with
  | true => exact slot.revoked_disabled
  | false => exact enabled

theorem KeySlot.retired_retired (slot : KeySlot) : slot.retired.retired = slot.retired := by
  have disabled := slot.retired_disabled
  rw [retired, disabled]
  rfl

namespace KeySlotTable

/-- `revoke_slot` for each index in turn: what each call returns, and the table at the end. -/
def revokeEach : List Nat → KeySlotTable → List (AegisResult Unit) × KeySlotTable
  | [], table => ([], table)
  | idx :: others, table =>
    let (result, next) := revokeSlot idx table
    let (results, final) := revokeEach others next
    (result :: results, final)

def Survives (table : KeySlotTable) (indices : List Nat) (survivor : Nat) : Prop :=
  survivor ∉ indices ∧ ∃ slot, table.slots[survivor]? = some slot ∧ slot.isEnabled = true

variable {table : KeySlotTable}

theorem modify_retired_disabled {idx : Nat} {slot : KeySlot} (found : table.slots[idx]? = some slot)
    (disabled : slot.isEnabled = false) : table.slots.modify idx KeySlot.retired = table.slots := by
  apply List.ext_getElem?
  intro i
  rw [List.getElem?_modify]
  by_cases same : idx = i
  · subst same
    simp [found, KeySlot.retired, disabled]
  · cases table.slots[i]? <;> simp [same]

theorem modify_retired_enabled {idx : Nat} {slot : KeySlot} (found : table.slots[idx]? = some slot)
    (enabled : slot.isEnabled = true) :
    table.slots.modify idx KeySlot.retired = table.slots.modify idx KeySlot.revoked := by
  apply List.ext_getElem?
  intro i
  rw [List.getElem?_modify, List.getElem?_modify]
  by_cases same : idx = i
  · subst same
    simp [found, KeySlot.retired, enabled]
  · cases table.slots[i]? <;> simp [same]

theorem several_of_survivor {idx survivor : Nat} {slot other : KeySlot} (differ : idx ≠ survivor)
    (found : table.slots[idx]? = some slot) (enabled : slot.isEnabled = true)
    (foundOther : table.slots[survivor]? = some other) (otherEnabled : other.isEnabled = true) :
    1 < table.enabledCount := by
  have cost : table.enabledCount = enabledCount { table with slots := table.slots.modify idx KeySlot.revoked } + 1 :=
    length_filter_modify_out KeySlot.revoked KeySlot.isEnabled found enabled slot.revoked_disabled
  have left : (table.slots.modify idx KeySlot.revoked)[survivor]? = some other := by
    rw [List.getElem?_modify, foundOther]
    simp [differ]
  have manned : 0 < enabledCount { table with slots := table.slots.modify idx KeySlot.revoked } :=
    (enabledCount_pos_iff _).mpr ⟨other, List.mem_of_getElem? left, otherEnabled⟩
  rw [cost]
  exact Nat.succ_lt_succ manned

theorem revokeSlot_of_survivor {idx survivor : Nat} {other : KeySlot} (differ : idx ≠ survivor)
    (foundOther : table.slots[survivor]? = some other) (otherEnabled : other.isEnabled = true) :
    revokeSlot idx table = (if idx < table.slots.length then .ok () else .err .slotUnseal,
      { table with slots := table.slots.modify idx KeySlot.retired }) := by
  rw [revokeSlot_eq]
  cases found : table.slots[idx]? with
  | none =>
    have outside : table.slots.length ≤ idx := List.getElem?_eq_none_iff.mp found
    have same : table.slots.modify idx KeySlot.retired = table.slots := List.modify_eq_self outside
    rw [if_neg (Nat.not_lt.mpr outside), same]
  | some slot =>
    have inside : idx < table.slots.length := (List.getElem?_eq_some_iff.mp found).1
    rw [if_pos inside]
    cases enabled : slot.isEnabled with
    | false => simp only [enabled, Bool.not_false, if_true, modify_retired_disabled found enabled]
    | true =>
      have several := several_of_survivor differ found enabled foundOther otherEnabled
      have last : ¬table.enabledCount ≤ 1 := Nat.not_le.mpr several
      simp only [enabled, last, Bool.not_true, Bool.false_eq_true, if_false, modify_retired_enabled found enabled]

theorem revokeEach_eq {indices : List Nat} {survivor : Nat} (survives : table.Survives indices survivor) :
    revokeEach indices table =
      (indices.map fun idx => if idx < table.slots.length then .ok () else .err .slotUnseal,
        { table with slots := modifyAll KeySlot.retired table.slots indices }) := by
  obtain ⟨unnamed, other, found, enabled⟩ := survives
  induction indices generalizing table with
  | nil => rfl
  | cons idx others ih =>
    have differ : idx ≠ survivor := fun same => unnamed (same ▸ List.mem_cons_self)
    have stays : (table.slots.modify idx KeySlot.retired)[survivor]? = some other := by
      rw [List.getElem?_modify, found]
      simp [differ]
    let next : KeySlotTable := { table with slots := table.slots.modify idx KeySlot.retired }
    have rest : revokeEach others next = _ :=
      ih (fun member => unnamed (List.mem_cons_of_mem idx member)) stays
    simp only [next, List.length_modify] at rest
    simp only [revokeEach, revokeSlot_of_survivor differ found enabled, rest, List.map_cons, modifyAll_cons]

theorem revokeSlot_manned (manned : 0 < table.enabledCount) (idx : Nat) :
    0 < (revokeSlot idx table).2.enabledCount := by
  cases called : revokeSlot idx table with
  | mk result next =>
    cases result with
    | ok value =>
      obtain ⟨slot, _, ⟨_, same⟩ | ⟨_, several, wiped⟩⟩ := revokeSlot_ok called
      · rw [same]
        exact manned
      · rw [wiped]
        exact revoke_manned several idx
    | err error =>
      rw [revokeSlot_err called]
      exact manned
    | panic => exact absurd (congrArg Prod.fst called) (revokeSlot_ne_panic idx table)

theorem revokeEach_manned (manned : 0 < table.enabledCount) (indices : List Nat) :
    0 < (revokeEach indices table).2.enabledCount := by
  induction indices generalizing table with
  | nil => exact manned
  | cons idx others ih => exact ih (revokeSlot_manned manned idx)

/-- A batch that leaves an enabled slot unnamed succeeds on every index in range and retires
the slots named, in whatever order and however often they are named. No batch at all disables
every slot. -/
theorem revokeEach_batch (table : KeySlotTable) (indices : List Nat) :
    ((∃ survivor, table.Survives indices survivor) → ∀ others, (∀ idx, idx ∈ others ↔ idx ∈ indices) →
      revokeEach others table =
        (others.map fun idx => if idx < table.slots.length then .ok () else .err .slotUnseal,
          { table with slots := table.slots.mapIdx fun i slot =>
              if i ∈ indices ∧ slot.isEnabled = true then slot.revoked else slot })) ∧
      (0 < table.enabledCount → 0 < (revokeEach indices table).2.enabledCount) := by
  refine ⟨?_, fun manned => revokeEach_manned manned indices⟩
  intro ⟨survivor, unnamed, slot, found, enabled⟩ others same
  have survives : table.Survives others survivor :=
    ⟨fun member => unnamed ((same survivor).mp member), slot, found, enabled⟩
  have entries : modifyAll KeySlot.retired table.slots others =
      table.slots.mapIdx fun i slot => if i ∈ indices ∧ slot.isEnabled = true then slot.revoked else slot := by
    rw [modifyAll_eq_mapIdx KeySlot.retired_retired]
    apply List.mapIdx_eq_mapIdx_iff.mpr
    intro i inside
    simp only [same, KeySlot.retired, ite_and]
  rw [revokeEach_eq survives, entries]

def pair : KeySlotTable where
  headerSalt := U8Array.zeros 32
  slots := List.replicate 2 ⟨U8Array.zeros 16, 1, 64, 3, U8Array.zeros 16, U8Array.zeros 12, U8Array.zeros 48, 1, 0⟩
  verifier := U8Array.zeros 32

theorem revokeEach_pair :
    revokeEach [1, 7, 1] pair = ([.ok (), .err .slotUnseal, .ok ()],
      { pair with slots := pair.slots.mapIdx fun i slot =>
          if i ∈ [7, 1] ∧ slot.isEnabled = true then slot.revoked else slot }) ∧
      0 < (revokeEach [1, 0] pair).2.enabledCount := by
  have survives : pair.Survives [7, 1] 0 := ⟨by decide, _, rfl, by decide⟩
  have same : ∀ idx, idx ∈ [1, 7, 1] ↔ idx ∈ [7, 1] := by
    intro idx
    simp only [List.mem_cons, List.not_mem_nil, or_false]
    omega
  exact ⟨(revokeEach_batch pair [7, 1]).1 ⟨0, survives⟩ [1, 7, 1] same,
    (revokeEach_batch pair [1, 0]).2 (by decide)⟩

end KeySlotTable
end SoteriaAegis.Slots
