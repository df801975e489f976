import SoteriaAegis.Slots.Layout
import SoteriaAegis.Rust.Run

/-! Runs of a program that holds one slot table: it makes the table, reads it from bytes,
adds and revokes slots, in any order and whether or not the calls succeed. -/

namespace SoteriaAegis.Slots
open Rust Crypto

inductive TableCall where
  | addSlot (master : U8Array MASTER_LEN) (passphrase : List UInt8) (draws : SlotDraws)
  | revokeSlot (idx : Nat)

def TableCall.passphrases : TableCall → List (List UInt8)
  | addSlot _ passphrase _ => [passphrase]
  | revokeSlot _ => []

inductive TableOp where
  | newInitial (master : U8Array MASTER_LEN) (passphrase : List UInt8) (draws : TableDraws)
  | fromBytes (data : List UInt8) (headerSalt : U8Array 32)
  | call (tableCall : TableCall)

variable (crates : Crates)

def TableCall.step (table : KeySlotTable) : TableCall → Option KeySlotTable
  | addSlot master passphrase draws => (KeySlotTable.addSlot crates master passphrase draws).after table
  | revokeSlot idx => (KeySlotTable.revokeSlot idx).after table

/-- The program keeps its old table when making a new one fails. -/
def keep (state : Option KeySlotTable) : AegisResult KeySlotTable → Option (Option KeySlotTable)
  | .ok table => some (some table)
  | .err _ => some state
  | .panic => none

def TableOp.step (state : Option KeySlotTable) : TableOp → Option (Option KeySlotTable)
  | newInitial master passphrase draws => keep state (KeySlotTable.newInitial crates master passphrase draws)
  | fromBytes data headerSalt => keep state (KeySlotTable.fromBytes crates data headerSalt)
  | call tableCall =>
    match state with
    | none => some none
    | some table => (tableCall.step crates table).map some

theorem TableCall.step_cases {call : TableCall} {table next : KeySlotTable}
    (stepped : call.step crates table = some next) :
    next = table ∨
      (∃ master passphrase draws slot, call = .addSlot master passphrase draws ∧ table.slots.length < MAX_SLOTS ∧
        KeySlot.create crates master passphrase 64 3 draws = .ok slot ∧
        next = { table with slots := table.slots ++ [slot] }) ∨
      ∃ idx slot, call = .revokeSlot idx ∧ 1 < table.enabledCount ∧ table.slots[idx]? = some slot ∧
        slot.isEnabled = true ∧ next = { table with slots := table.slots.modify idx KeySlot.revoked } := by
  cases call with
  | addSlot master passphrase draws =>
    rcases Method.after_cases stepped with ⟨idx, done⟩ | ⟨error, failed⟩
    · obtain ⟨room, _, slot, made, grown⟩ := KeySlotTable.addSlot_ok done
      exact Or.inr (Or.inl ⟨master, passphrase, draws, slot, rfl, room, made, grown⟩)
    · exact Or.inl (KeySlotTable.addSlot_err failed)
  | revokeSlot idx =>
    rcases Method.after_cases stepped with ⟨_, done⟩ | ⟨error, failed⟩
    · obtain ⟨slot, found, ⟨_, same⟩ | ⟨enabled, several, wiped⟩⟩ := KeySlotTable.revokeSlot_ok done
      · exact Or.inl same
      · exact Or.inr (Or.inr ⟨idx, slot, rfl, several, found, enabled, wiped⟩)
    · exact Or.inl (KeySlotTable.revokeSlot_err failed)

theorem keep_cases {state next : Option KeySlotTable} {result : AegisResult KeySlotTable}
    (kept : keep state result = some next) : next = state ∨ ∃ table, result = .ok table ∧ next = some table := by
  cases result with
  | ok table => exact Or.inr ⟨table, rfl, (Option.some.inj kept).symm⟩
  | err error => exact Or.inl (Option.some.inj kept).symm
  | panic => cases kept

theorem TableOp.step_cases {op : TableOp} {state : Option KeySlotTable} {table : KeySlotTable}
    (stepped : op.step crates state = some (some table)) :
    state = some table ∨
      (∃ master passphrase draws, op = .newInitial master passphrase draws ∧
        KeySlotTable.newInitial crates master passphrase draws = .ok table) ∨
      (∃ data headerSalt, op = .fromBytes data headerSalt ∧
        KeySlotTable.fromBytes crates data headerSalt = .ok table) ∨
      ∃ call before, op = .call call ∧ state = some before ∧ call.step crates before = some table := by
  cases op with
  | newInitial master passphrase draws =>
    rcases keep_cases stepped with same | ⟨made, result, same⟩
    · exact Or.inl same.symm
    · cases same
      exact Or.inr (Or.inl ⟨master, passphrase, draws, rfl, result⟩)
  | fromBytes data headerSalt =>
    rcases keep_cases stepped with same | ⟨made, result, same⟩
    · exact Or.inl same.symm
    · cases same
      exact Or.inr (Or.inr (Or.inl ⟨data, headerSalt, rfl, result⟩))
  | call tableCall =>
    cases state with
    | none => cases stepped
    | some before =>
      obtain ⟨next, ran, same⟩ := Option.map_eq_some_iff.mp stepped
      cases same
      exact Or.inr (Or.inr (Or.inr ⟨tableCall, before, rfl, rfl, ran⟩))

namespace KeySlotTable

theorem step_length {call : TableCall} {table next : KeySlotTable} (stepped : call.step crates table = some next) :
    next.slots.length ≤ max table.slots.length MAX_SLOTS := by
  rcases call.step_cases crates stepped with
    rfl | ⟨_, _, _, slot, _, room, _, rfl⟩ | ⟨idx, slot, _, _, _, _, rfl⟩
  · exact Nat.le_max_left _ _
  · rw [List.length_append, List.length_singleton]
    omega
  · rw [List.length_modify]
    exact Nat.le_max_left _ _

theorem newInitial_length {master : U8Array MASTER_LEN} {passphrase : List UInt8} {draws : TableDraws}
    {table : KeySlotTable} (made : newInitial crates master passphrase draws = .ok table) :
    table.slots.length = 1 := by
  obtain ⟨slot, _, rfl⟩ := (newInitial_eq_ok_iff crates _ _ _ _).mp made
  rfl

/-- The length byte never truncates on a table that a program can hold. -/
theorem reached_length {ops : List TableOp} {table : KeySlotTable}
    (ran : run (TableOp.step crates) none ops = some (some table)) : table.slots.length < 256 := by
  have bounded : ∀ held, some table = some held → held.slots.length < 256 := by
    apply run_invariant (fun state => ∀ held, state = some held → held.slots.length < 256) _ _ ran
    · intro state op next small stepped held same
      subst same
      rcases op.step_cases crates stepped with
        same | ⟨_, _, _, _, made⟩ | ⟨data, headerSalt, _, read⟩ | ⟨call, before, _, same, called⟩
      · exact small held same
      · rw [newInitial_length crates made]
        decide
      · exact ((fromBytes_eq_ok_iff crates _ _ _).mp read).2.1
      · have bound := step_length crates called
        have smallBefore := small before same
        have cap : MAX_SLOTS = 16 := rfl
        omega
    · intro held impossible
      cases impossible
  exact bounded table rfl

/-- Every table that a program can hold is read back as it was written. -/
theorem reached_roundTrip (ops : List TableOp) (table : KeySlotTable)
    (ran : run (TableOp.step crates) none ops = some (some table)) :
    fromBytes crates (table.toBytes crates) table.headerSalt = .ok table :=
  fromBytes_toBytes crates table (reached_length crates ran)

theorem reached_roundTrip_revoked : ∃ table,
    run (TableOp.step checksumCrates) none
      [.newInitial (U8Array.zeros 32) (ascii "alice") TableDraws.blank,
        .call (.addSlot (U8Array.zeros 32) (ascii "bob") SlotDraws.blank), .call (.revokeSlot 0)] =
      some (some table) ∧
    fromBytes checksumCrates (table.toBytes checksumCrates) table.headerSalt = .ok table := by
  have reached : ((run (TableOp.step checksumCrates) none
      [.newInitial (U8Array.zeros 32) (ascii "alice") TableDraws.blank,
        .call (.addSlot (U8Array.zeros 32) (ascii "bob") SlotDraws.blank),
        .call (.revokeSlot 0)]).bind id).isSome = true := by
    decide +kernel
  obtain ⟨table, found⟩ := Option.isSome_iff_exists.mp reached
  have ran := Option.bind_eq_some_iff.mp found
  obtain ⟨state, ran, same⟩ := ran
  cases same
  exact ⟨table, ran, reached_roundTrip checksumCrates _ table ran⟩

end KeySlotTable
end SoteriaAegis.Slots
