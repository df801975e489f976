import SoteriaAegis.Slots.Runs

/-! The limits that `add_slot` and `create` keep and the parser does not check. -/

namespace SoteriaAegis.Slots
open Rust Crypto
variable (crates : Crates)

/-- At most `MAX_SLOTS` slots, each of the one KDF that `unseal` implements. -/
structure WellFormed (table : KeySlotTable) : Prop where
  few : table.slots.length ≤ MAX_SLOTS
  argon2id : ∀ slot ∈ table.slots, slot.kdfId = KDF_ID_ARGON2ID

def WellFormedBytes (data : List UInt8) : Prop :=
  ∃ slotCount ∈ data[5]?, slotCount.toNat ≤ MAX_SLOTS ∧
    ∀ i < slotCount.toNat, window data (KeySlotTable.slotOffset i + 16) 1 = [KDF_ID_ARGON2ID]

namespace WellFormed

theorem of_newInitial {master : U8Array MASTER_LEN} {passphrase : List UInt8} {draws : TableDraws}
    {table : KeySlotTable} (made : KeySlotTable.newInitial crates master passphrase draws = .ok table) :
    WellFormed table := by
  obtain ⟨slot, created, rfl⟩ := (KeySlotTable.newInitial_eq_ok_iff crates _ _ _ _).mp made
  obtain ⟨_, shape⟩ := (KeySlot.create_eq_ok_iff crates _ _ _ _ _ _).mp created
  refine ⟨show 1 ≤ MAX_SLOTS by decide, fun other member => ?_⟩
  rw [List.mem_singleton.mp member, shape]

theorem step {call : TableCall} {table next : KeySlotTable} (wellFormed : WellFormed table)
    (stepped : call.step crates table = some next) : WellFormed next := by
  refine ⟨(KeySlotTable.step_length crates stepped).trans (Nat.max_le.mpr ⟨wellFormed.few, Nat.le_refl _⟩), ?_⟩
  intro other member
  rcases call.step_cases crates stepped with
    rfl | ⟨_, _, _, slot, _, _, created, rfl⟩ | ⟨idx, slot, _, _, _, _, rfl⟩
  · exact wellFormed.argon2id other member
  · rcases List.mem_append.mp member with old | new
    · exact wellFormed.argon2id other old
    · obtain ⟨_, shape⟩ := (KeySlot.create_eq_ok_iff crates _ _ _ _ _ _).mp created
      rw [List.mem_singleton.mp new, shape]
  · obtain ⟨before, old, same⟩ := mem_modify_revoked member
    rcases same with rfl | rfl
    · exact wellFormed.argon2id other old
    · exact wellFormed.argon2id before old

theorem fromBytes_iff {data : List UInt8} {headerSalt : U8Array 32} {table : KeySlotTable}
    (read : KeySlotTable.fromBytes crates data headerSalt = .ok table) :
    WellFormed table ↔ WellFormedBytes data := by
  obtain ⟨_, small, extra, shape⟩ := (KeySlotTable.fromBytes_eq_ok_iff crates _ _ _).mp read
  rw [List.append_assoc] at shape
  subst shape
  generalize extra ++ (crates.blake3KeyedHash headerSalt (table.bodyBytes ++ extra)).val = behind
  obtain ⟨count, counted, same⟩ := KeySlotTable.countByte table behind small
  have kdfByte : ∀ i (inside : i < table.slots.length),
      window (table.bodyBytes ++ behind) (KeySlotTable.slotOffset i + 16) 1 = [table.slots[i].kdfId] := by
    intro i inside
    have costs := congrArg (List.take 1) (KeySlotTable.costsWindow_eq table behind i inside)
    rw [KeySlotTable.costsWindow, window_take _ _ 1 8] at costs
    exact costs
  simp only [WellFormedBytes, counted, Option.mem_def, Option.some.injEq, exists_eq_left', same]
  constructor
  · intro wellFormed
    refine ⟨wellFormed.few, fun i inside => ?_⟩
    rw [kdfByte i inside, wellFormed.argon2id _ (List.getElem_mem inside)]
  · intro limits
    refine ⟨limits.1, fun slot member => ?_⟩
    obtain ⟨i, inside, rfl⟩ := List.getElem_of_mem member
    have byte := limits.2 i inside
    rw [kdfByte i inside] at byte
    exact List.singleton_inj.mp byte

end WellFormed

/-- A program's tables stay within the limits exactly when the accepted inputs it parses do. -/
theorem visited_wellFormed_iff (ops : List TableOp) :
    (∀ table, Visits (TableOp.step crates) none ops (some table) → WellFormed table) ↔
      ∀ state data headerSalt, Takes (TableOp.step crates) none ops state (.fromBytes data headerSalt) →
        KeySlotTable.Acceptable crates data headerSalt → WellFormedBytes data := by
  constructor
  · intro kept state data headerSalt taken acceptable
    obtain ⟨table, read⟩ := (KeySlotTable.fromBytes_isOk_iff crates data headerSalt).mpr acceptable
    have stepped : TableOp.step crates state (.fromBytes data headerSalt) = some (some table) := by
      simp only [TableOp.step, read, keep]
    exact (WellFormed.fromBytes_iff crates read).mp (kept table (taken.next stepped))
  · intro limits table visited
    have invariant : ∀ held, some table = some held → WellFormed held := by
      apply visits_induction (fun state => ∀ held, state = some held → WellFormed held) _ _ visited
      · intro held impossible
        cases impossible
      · intro state op next taken wellFormed stepped held same
        subst same
        rcases op.step_cases crates stepped with
          same | ⟨_, _, _, _, made⟩ | ⟨data, headerSalt, rfl, read⟩ | ⟨call, before, _, same, called⟩
        · exact wellFormed held same
        · exact WellFormed.of_newInitial crates made
        · have acceptable := KeySlotTable.acceptable_of_ok crates read
          exact (WellFormed.fromBytes_iff crates read).mpr (limits state data headerSalt taken acceptable)
        · exact (wellFormed before same).step crates called
    exact invariant table rfl

def crowded : KeySlotTable where
  headerSalt := U8Array.zeros 32
  slots := List.replicate 17 ⟨U8Array.zeros 16, 7, 64, 3, U8Array.zeros 16, U8Array.zeros 12, U8Array.zeros 48, 1, 0⟩
  verifier := U8Array.zeros 32

/-- Whoever can write the file can have any table parsed, up to 255 slots. -/
theorem run_fromBytes_toBytes (table : KeySlotTable) (small : table.slots.length < 256) :
    run (TableOp.step crates) none [.fromBytes (table.toBytes crates) table.headerSalt] = some (some table) := by
  have read := KeySlotTable.fromBytes_toBytes crates table small
  simp only [run_cons, run_nil, TableOp.step, read, keep, Option.bind_some]

theorem crowded_parsed :
    run (TableOp.step checksumCrates) none [.fromBytes (crowded.toBytes checksumCrates) crowded.headerSalt] =
      some (some crowded) ∧ ¬crowded.slots.length ≤ MAX_SLOTS ∧
      ∀ slot ∈ crowded.slots, slot.kdfId ≠ KDF_ID_ARGON2ID := by
  refine ⟨run_fromBytes_toBytes checksumCrates crowded (by decide), by decide, ?_⟩
  intro slot member
  rw [List.eq_of_mem_replicate member]
  decide

end SoteriaAegis.Slots
