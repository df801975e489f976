import SoteriaAegis.Slots.KeySlot

/-! The slot table and its operations, with what each operation can do. -/

namespace SoteriaAegis.Slots
open Rust Crypto

structure KeySlotTable where
  headerSalt : U8Array 32
  slots : List KeySlot
  verifier : U8Array 32
  deriving DecidableEq

structure TableDraws where
  headerSalt : U8Array 32
  slot : SlotDraws

def TableDraws.blank : TableDraws := ⟨U8Array.zeros 32, SlotDraws.blank⟩

namespace KeySlotTable
variable (crates : Crates)

def newInitial (master : U8Array MASTER_LEN) (passphrase : List UInt8) (draws : TableDraws) :
    AegisResult KeySlotTable := do
  let slot ← KeySlot.create crates master passphrase 64 3 draws.slot
  return { headerSalt := draws.headerSalt, slots := [slot], verifier := volumeVerifier crates master }

def addSlot (master : U8Array MASTER_LEN) (passphrase : List UInt8) (draws : SlotDraws) :
    Method KeySlotTable AegisError Nat := do
  let table ← Method.self
  if MAX_SLOTS ≤ table.slots.length then Method.fail (.slotTableFull MAX_SLOTS)
  else
    let slot ← Method.lift (KeySlot.create crates master passphrase 64 3 draws)
    Method.update fun table => { table with slots := table.slots ++ [slot] }
    let table ← Method.self
    return table.slots.length - 1

def enabledCount (table : KeySlotTable) : Nat := (table.slots.filter (·.isEnabled)).length

def revokeSlot (idx : Nat) : Method KeySlotTable AegisError Unit := do
  let table ← Method.self
  if table.slots.length ≤ idx then Method.fail .slotUnseal
  else
    let slot ← Method.lift (Outcome.index table.slots idx)
    if !slot.isEnabled then return ()
    else if table.enabledCount ≤ 1 then Method.fail .lastSlotRevocation
    else
      Method.update fun table =>
        { table with slots := table.slots.modify idx fun slot => { slot with flags := slot.flags &&& 0b11111110 } }
      Method.update fun table =>
        { table with slots := table.slots.modify idx fun slot => { slot with ct := U8Array.zeros CT_LEN } }

/-- The loop of `unseal_with`, from index `i`. A slot that does not open is passed over. -/
def unsealFrom (passphrase : List UInt8) (i : Nat) : List KeySlot → AegisResult (Nat × AegisKey)
  | [] => .err .noSlotUnsealed
  | slot :: rest =>
    if !slot.isEnabled then unsealFrom passphrase (i + 1) rest
    else match slot.unsealSlot crates passphrase with
      | .ok master => .ok (i, master)
      | .err _ => unsealFrom passphrase (i + 1) rest
      | .panic => .panic

def unsealWith (table : KeySlotTable) (passphrase : List UInt8) : AegisResult (Nat × AegisKey) :=
  unsealFrom crates passphrase 0 table.slots

end KeySlotTable

/-- What revocation leaves of a slot: bit 0 of the flags cleared, the ciphertext wiped. -/
def KeySlot.revoked (slot : KeySlot) : KeySlot :=
  { slot with flags := slot.flags &&& 0b11111110, ct := U8Array.zeros CT_LEN }

theorem KeySlot.revoked_disabled (slot : KeySlot) : slot.revoked.isEnabled = false := by
  have cleared : (slot.flags &&& 0b11111110) &&& 0b00000001 = 0 := by
    rw [UInt8.and_assoc]
    exact UInt8.and_zero
  simp only [KeySlot.isEnabled, KeySlot.revoked, cleared, bne_self_eq_false]

theorem mem_modify_revoked {slots : List KeySlot} {idx : Nat} {slot : KeySlot}
    (member : slot ∈ slots.modify idx KeySlot.revoked) :
    ∃ before ∈ slots, slot = before ∨ slot = before.revoked := by
  obtain ⟨at_slot, found⟩ := List.getElem?_of_mem member
  rw [List.getElem?_modify] at found
  obtain ⟨before, at_before, same⟩ := Option.map_eq_some_iff.mp found
  refine ⟨before, List.mem_of_getElem? at_before, ?_⟩
  by_cases named : idx = at_slot
  · exact Or.inr (by simpa only [named, if_true] using same.symm)
  · exact Or.inl (by simpa only [named, if_false] using same.symm)

namespace KeySlotTable
variable (crates : Crates)

theorem newInitial_eq_ok_iff (master : U8Array MASTER_LEN) (passphrase : List UInt8) (draws : TableDraws)
    (table : KeySlotTable) :
    newInitial crates master passphrase draws = .ok table ↔
      ∃ slot, KeySlot.create crates master passphrase 64 3 draws.slot = .ok slot ∧
        table = ⟨draws.headerSalt, [slot], volumeVerifier crates master⟩ := by
  rw [newInitial, Outcome.bind_eq_ok_iff]
  simp only [Outcome.pure_eq, Outcome.ok.injEq, eq_comm]

theorem addSlot_eq (master : U8Array MASTER_LEN) (passphrase : List UInt8) (draws : SlotDraws)
    (table : KeySlotTable) :
    addSlot crates master passphrase draws table =
      if MAX_SLOTS ≤ table.slots.length then (.err (.slotTableFull MAX_SLOTS), table)
      else match KeySlot.create crates master passphrase 64 3 draws with
        | .ok slot => (.ok table.slots.length, { table with slots := table.slots ++ [slot] })
        | .err error => (.err error, table)
        | .panic => (.panic, table) := by
  by_cases full : MAX_SLOTS ≤ table.slots.length
  · rw [if_pos full, addSlot, Method.bind_apply, Method.self_apply]
    simp only [full, if_true, Method.fail_apply]
  · rw [if_neg full, addSlot, Method.bind_apply, Method.self_apply]
    simp only [full, if_false, Method.bind_apply, Method.lift_apply]
    cases KeySlot.create crates master passphrase 64 3 draws with
    | ok slot => simp
    | err error => rfl
    | panic => rfl

theorem revokeSlot_eq (idx : Nat) (table : KeySlotTable) :
    revokeSlot idx table =
      match table.slots[idx]? with
      | none => (.err .slotUnseal, table)
      | some slot =>
        if !slot.isEnabled then (.ok (), table)
        else if table.enabledCount ≤ 1 then (.err .lastSlotRevocation, table)
        else (.ok (), { table with slots := table.slots.modify idx KeySlot.revoked }) := by
  rw [revokeSlot, Method.bind_apply, Method.self_apply]
  by_cases outside : table.slots.length ≤ idx
  · simp only [outside, if_true, Method.fail_apply, List.getElem?_eq_none outside]
  · have inside : idx < table.slots.length := Nat.lt_of_not_le outside
    simp only [outside, if_false, Method.bind_apply, Method.lift_apply,
      Outcome.index_of_lt table.slots idx inside, List.getElem?_eq_getElem inside]
    by_cases enabled : table.slots[idx].isEnabled
    · by_cases last : table.enabledCount ≤ 1
      · simp only [enabled, last, Bool.not_true, Bool.false_eq_true, if_false, if_true, Method.fail_apply]
      · simp only [enabled, last, Bool.not_true, Bool.false_eq_true, if_false, Method.bind_apply,
          Method.update_apply, List.modify_modify_eq]
        rfl
    · simp only [enabled, Bool.not_false, if_true, Method.pure_apply]

section
variable {crates} {master : U8Array MASTER_LEN} {passphrase : List UInt8} {draws : SlotDraws} {table next : KeySlotTable}

theorem countable (few : table.slots.length ≤ MAX_SLOTS) : table.slots.length < 256 :=
  Nat.lt_of_le_of_lt few (by decide)

variable (table) in
theorem append_countable (room : table.slots.length < MAX_SLOTS) (slot : KeySlot) :
    (table.slots ++ [slot]).length < 256 := by
  have few : (table.slots ++ [slot]).length ≤ MAX_SLOTS := by
    rw [List.length_append, List.length_singleton]
    exact room
  exact Nat.lt_of_le_of_lt few (by decide)

theorem addSlot_ok {idx : Nat} (done : addSlot crates master passphrase draws table = (.ok idx, next)) :
    table.slots.length < MAX_SLOTS ∧ idx = table.slots.length ∧ ∃ slot,
      KeySlot.create crates master passphrase 64 3 draws = .ok slot ∧
        next = { table with slots := table.slots ++ [slot] } := by
  rw [addSlot_eq] at done
  by_cases full : MAX_SLOTS ≤ table.slots.length
  · rw [if_pos full] at done
    cases done
  · rw [if_neg full] at done
    cases made : KeySlot.create crates master passphrase 64 3 draws with
    | ok slot =>
      rw [made] at done
      cases done
      exact ⟨Nat.lt_of_not_le full, rfl, slot, rfl, rfl⟩
    | err error => rw [made] at done; cases done
    | panic => rw [made] at done; cases done

theorem addSlot_err {error : AegisError} (failed : addSlot crates master passphrase draws table = (.err error, next)) :
    next = table := by
  rw [addSlot_eq] at failed
  by_cases full : MAX_SLOTS ≤ table.slots.length
  · rw [if_pos full] at failed
    cases failed
    rfl
  · rw [if_neg full] at failed
    cases made : KeySlot.create crates master passphrase 64 3 draws with
    | ok slot => rw [made] at failed; cases failed
    | err error => rw [made] at failed; cases failed; rfl
    | panic => rw [made] at failed; cases failed

theorem revokeSlot_ok {idx : Nat} (done : revokeSlot idx table = (.ok (), next)) :
    ∃ slot, table.slots[idx]? = some slot ∧
      (slot.isEnabled = false ∧ next = table ∨ slot.isEnabled = true ∧ 1 < table.enabledCount ∧
        next = { table with slots := table.slots.modify idx KeySlot.revoked }) := by
  rw [revokeSlot_eq] at done
  cases found : table.slots[idx]? with
  | none => rw [found] at done; cases done
  | some slot =>
    simp only [found] at done
    refine ⟨slot, rfl, ?_⟩
    by_cases enabled : slot.isEnabled = true
    · by_cases last : table.enabledCount ≤ 1
      · simp only [enabled, last, Bool.not_true, Bool.false_eq_true, if_false, if_true] at done
        cases done
      · simp only [enabled, last, Bool.not_true, Bool.false_eq_true, if_false] at done
        cases done
        exact Or.inr ⟨enabled, Nat.lt_of_not_le last, rfl⟩
    · have disabled := Bool.eq_false_iff.mpr enabled
      simp only [disabled, Bool.not_false, if_true] at done
      cases done
      exact Or.inl ⟨disabled, rfl⟩

theorem revokeSlot_err {idx : Nat} {error : AegisError} (failed : revokeSlot idx table = (.err error, next)) :
    next = table := by
  rw [revokeSlot_eq] at failed
  cases found : table.slots[idx]? with
  | none => rw [found] at failed; cases failed; rfl
  | some slot =>
    simp only [found] at failed
    by_cases enabled : slot.isEnabled = true
    · by_cases last : table.enabledCount ≤ 1
      · simp only [enabled, last, Bool.not_true, Bool.false_eq_true, if_false, if_true] at failed
        cases failed
        rfl
      · simp only [enabled, last, Bool.not_true, Bool.false_eq_true, if_false] at failed
        cases failed
    · simp only [enabled, Bool.not_false, if_true] at failed
      cases failed

end

theorem enabledCount_pos_iff (table : KeySlotTable) :
    0 < table.enabledCount ↔ ∃ slot ∈ table.slots, slot.isEnabled = true := by
  simp only [enabledCount, List.length_pos_iff_exists_mem, List.mem_filter]

theorem unsealFrom_cons (passphrase : List UInt8) (start : Nat) (slot : KeySlot) (rest : List KeySlot) :
    (∃ found, slot.isEnabled = true ∧ slot.unsealSlot crates passphrase = .ok found ∧
        unsealFrom crates passphrase start (slot :: rest) = .ok (start, found)) ∨
      (∀ found, slot.isEnabled = true → slot.unsealSlot crates passphrase ≠ .ok found) ∧
        unsealFrom crates passphrase start (slot :: rest) = unsealFrom crates passphrase (start + 1) rest := by
  by_cases enabled : slot.isEnabled = true
  · cases opened : slot.unsealSlot crates passphrase with
    | ok found => exact .inl ⟨found, enabled, rfl, by simp [unsealFrom, enabled, opened]⟩
    | err error =>
      refine .inr ⟨fun found _ same => ?_, by simp [unsealFrom, enabled, opened]⟩
      cases same
    | panic => exact absurd opened (KeySlot.unsealSlot_ne_panic crates slot passphrase)
  · exact .inr ⟨fun _ isEnabled => absurd isEnabled enabled, by simp [unsealFrom, enabled]⟩

theorem unsealFrom_eq_ok_iff (passphrase : List UInt8) (start : Nat) (slots : List KeySlot) (idx : Nat)
    (master : AegisKey) :
    unsealFrom crates passphrase start slots = .ok (idx, master) ↔
      ∃ offset slot, idx = start + offset ∧ slots[offset]? = some slot ∧ slot.isEnabled = true ∧
        slot.unsealSlot crates passphrase = .ok master ∧
        ∀ earlier < offset, ∀ other, slots[earlier]? = some other → other.isEnabled = true →
          ∀ found, other.unsealSlot crates passphrase ≠ .ok found := by
  induction slots generalizing start with
  | nil => simp [unsealFrom]
  | cons slot rest ih =>
    obtain ⟨found, enabled, opened, here⟩ | ⟨closed, passedOver⟩ := unsealFrom_cons crates passphrase start slot rest
    · rw [here]
      constructor
      · intro same
        cases same
        exact ⟨0, slot, rfl, rfl, enabled, opened, fun _ impossible => absurd impossible (Nat.not_lt_zero _)⟩
      · rintro ⟨offset, other, rfl, at_offset, otherEnabled, otherOpened, first⟩
        cases offset with
        | zero =>
          cases at_offset
          rw [opened] at otherOpened
          cases otherOpened
          rfl
        | succ offset => exact absurd opened (first 0 (Nat.succ_pos _) slot rfl enabled found)
    · rw [passedOver, ih (start + 1)]
      constructor
      · rintro ⟨offset, other, rfl, at_offset, enabled, opened, first⟩
        refine ⟨offset + 1, other, by omega, at_offset, enabled, opened, ?_⟩
        intro earlier before candidate at_earlier
        cases earlier with
        | zero =>
          cases at_earlier
          exact fun enabled found => closed found enabled
        | succ earlier => exact first earlier (Nat.lt_of_succ_lt_succ before) candidate at_earlier
      · rintro ⟨offset, other, rfl, at_offset, enabled, opened, first⟩
        cases offset with
        | zero =>
          cases at_offset
          exact absurd opened (closed master enabled)
        | succ offset =>
          refine ⟨offset, other, by omega, at_offset, enabled, opened, ?_⟩
          intro earlier before candidate at_earlier
          exact first (earlier + 1) (Nat.succ_lt_succ before) candidate at_earlier

/-- The search returns the first enabled slot that opens, and only such a slot. -/
theorem unsealWith_eq_ok_iff (table : KeySlotTable) (passphrase : List UInt8) (idx : Nat) (master : AegisKey) :
    table.unsealWith crates passphrase = .ok (idx, master) ↔
      ∃ slot, table.slots[idx]? = some slot ∧ slot.isEnabled = true ∧
        slot.unsealSlot crates passphrase = .ok master ∧
        ∀ earlier < idx, ∀ other, table.slots[earlier]? = some other → other.isEnabled = true →
          ∀ found, other.unsealSlot crates passphrase ≠ .ok found := by
  rw [unsealWith, unsealFrom_eq_ok_iff]
  constructor
  · rintro ⟨offset, slot, same, rest⟩
    rw [Nat.zero_add] at same
    exact ⟨slot, same ▸ rest⟩
  · rintro ⟨slot, rest⟩
    exact ⟨idx, slot, (Nat.zero_add idx).symm, rest⟩

theorem unsealFrom_err {passphrase : List UInt8} {start : Nat} {slots : List KeySlot} {error : AegisError}
    (failed : unsealFrom crates passphrase start slots = .err error) : error = .noSlotUnsealed := by
  induction slots generalizing start with
  | nil =>
    cases failed
    rfl
  | cons slot rest ih =>
    obtain ⟨found, _, _, here⟩ | ⟨_, passedOver⟩ := unsealFrom_cons crates passphrase start slot rest
    · rw [here] at failed
      cases failed
    · rw [passedOver] at failed
      exact ih failed

theorem unsealFrom_ne_panic (passphrase : List UInt8) (start : Nat) (slots : List KeySlot) :
    unsealFrom crates passphrase start slots ≠ .panic := by
  induction slots generalizing start with
  | nil => simp [unsealFrom]
  | cons slot rest ih =>
    obtain ⟨found, _, _, here⟩ | ⟨_, passedOver⟩ := unsealFrom_cons crates passphrase start slot rest
    · rw [here]
      exact Outcome.ok_ne_panic _
    · rw [passedOver]
      exact ih (start + 1)

theorem unsealWith_ne_panic (table : KeySlotTable) (passphrase : List UInt8) :
    table.unsealWith crates passphrase ≠ .panic := unsealFrom_ne_panic crates passphrase 0 table.slots

theorem newInitial_ne_panic (tags : crates.AppendsTag) (master : U8Array MASTER_LEN) (passphrase : List UInt8)
    (draws : TableDraws) : newInitial crates master passphrase draws ≠ .panic := by
  apply Outcome.bind_ne_panic (KeySlot.create_ne_panic crates tags _ _ _ _ _)
  intro slot _
  exact Outcome.ok_ne_panic _

theorem addSlot_ne_panic (tags : crates.AppendsTag) (master : U8Array MASTER_LEN) (passphrase : List UInt8)
    (draws : SlotDraws) (table : KeySlotTable) : (addSlot crates master passphrase draws table).1 ≠ .panic := by
  rw [addSlot_eq]
  split
  · exact Outcome.err_ne_panic _
  · cases made : KeySlot.create crates master passphrase 64 3 draws with
    | ok slot => exact Outcome.ok_ne_panic _
    | err error => exact Outcome.err_ne_panic _
    | panic => exact absurd made (KeySlot.create_ne_panic crates tags _ _ _ _ _)

theorem revokeSlot_ne_panic (idx : Nat) (table : KeySlotTable) : (revokeSlot idx table).1 ≠ .panic := by
  rw [revokeSlot_eq]
  split
  · exact Outcome.err_ne_panic _
  · split
    · exact Outcome.ok_ne_panic _
    · split
      · exact Outcome.err_ne_panic _
      · exact Outcome.ok_ne_panic _

theorem unsealWith_isOk_iff (table : KeySlotTable) (passphrase : List UInt8) :
    (∃ found, table.unsealWith crates passphrase = .ok found) ↔
      ∃ slot ∈ table.slots, slot.isEnabled = true ∧ ∃ master, slot.unsealSlot crates passphrase = .ok master := by
  constructor
  · rintro ⟨⟨idx, master⟩, found⟩
    obtain ⟨slot, at_idx, enabled, opened, _⟩ := (unsealWith_eq_ok_iff crates _ _ _ _).mp found
    exact ⟨slot, List.mem_of_getElem? at_idx, enabled, master, opened⟩
  · rintro ⟨slot, member, enabled, master, opened⟩
    let Opens : Nat → Prop := fun idx => ∃ slot, table.slots[idx]? = some slot ∧ slot.isEnabled = true ∧
      ∃ master, slot.unsealSlot crates passphrase = .ok master
    obtain ⟨idx, at_idx⟩ := List.getElem?_of_mem member
    have some_opens : ∃ idx, Opens idx := ⟨idx, slot, at_idx, enabled, master, opened⟩
    classical
    obtain ⟨first, at_first, firstEnabled, found, firstOpened⟩ := Nat.find_spec some_opens
    refine ⟨(Nat.find some_opens, found), (unsealWith_eq_ok_iff crates _ _ _ _).mpr
      ⟨first, at_first, firstEnabled, firstOpened, ?_⟩⟩
    intro earlier before other at_earlier otherEnabled answer otherOpened
    exact Nat.find_min some_opens before ⟨other, at_earlier, otherEnabled, answer, otherOpened⟩

end KeySlotTable
end SoteriaAegis.Slots
