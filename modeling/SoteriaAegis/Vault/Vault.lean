import SoteriaAegis.Slots.Runs
import SoteriaAegis.Crypto.Hierarchy

/-! The live vault: a master key, the hierarchy derived from it and an optional slot table. -/

namespace SoteriaAegis.Vault
open Rust Crypto Slots

structure AegisVault where
  master : AegisKey
  hierarchy : KeyHierarchy
  slots : Option KeySlotTable
  deriving DecidableEq

def VolumeKeyRotation.rotate (fresh : U8Array MASTER_LEN) : AegisKey := AegisKey.new32 fresh

namespace AegisVault
variable (crates : Crates)

def fromMasterKey (master : U8Array MASTER_LEN) : AegisResult AegisVault := do
  let masterKey := AegisKey.new32 master
  let hierarchy ← Outcome.expect (KeyHierarchy.fromMaster crates master.val)
  return { master := masterKey, hierarchy := hierarchy, slots := none }

def unlock (passphrase salt : List UInt8) (memoryKib iterations : UInt32) : AegisResult AegisVault := do
  let master ← argon2idRoot crates passphrase salt memoryKib iterations
  let raw ← U8Array.copyFromSlice MASTER_LEN master.expose
  fromMasterKey crates raw

def domain (vault : AegisVault) (d : Domain) : AegisKey := vault.hierarchy.domain d

def encrypt (vault : AegisVault) (domain : Domain) (plaintext aad : List UInt8) (algo : AeadAlgo) (fill : OsFill) :
    AegisResult (List UInt8 × List UInt8) := do
  let key := vault.hierarchy.domain domain
  let raw ← U8Array.copyFromSlice 32 key.expose
  (AeadCipher.new algo raw).aeadSeal crates fill plaintext aad

def decrypt (vault : AegisVault) (domain : Domain) (nonce ciphertext aad : List UInt8) (algo : AeadAlgo) :
    AegisResult (List UInt8) := do
  let key := vault.hierarchy.domain domain
  let raw ← U8Array.copyFromSlice 32 key.expose
  (AeadCipher.new algo raw).aeadOpen crates nonce ciphertext aad

def sealSlots (passphrase : List UInt8) (draws : TableDraws) : Method AegisVault AegisError Unit := do
  let vault ← Method.self
  let raw ← Method.lift (U8Array.copyFromSlice MASTER_LEN vault.master.expose)
  let table ← Method.lift (KeySlotTable.newInitial crates raw passphrase draws)
  Method.update fun vault => { vault with slots := some table }

def onTable {α : Type} (table : KeySlotTable) (call : Method KeySlotTable AegisError α) :
    Method AegisVault AegisError α := fun vault =>
  ((call table).1, { vault with slots := some (call table).2 })

def addSlot (passphrase : List UInt8) (draws : TableDraws) : Method AegisVault AegisError Nat := do
  let vault ← Method.self
  let raw ← Method.lift (U8Array.copyFromSlice MASTER_LEN vault.master.expose)
  match vault.slots with
  | some table => onTable table (KeySlotTable.addSlot crates raw passphrase draws.slot)
  | none => do
    sealSlots crates passphrase draws
    return 0

def revokeSlot (idx : Nat) : Method AegisVault AegisError Unit := do
  let vault ← Method.self
  match vault.slots with
  | some table => onTable table (KeySlotTable.revokeSlot idx)
  | none => Method.fail .lastSlotRevocation

/-- The master is written before the hierarchy is derived. -/
def openFromSlots (tableBytes : List UInt8) (headerSalt : U8Array 32) (passphrase : List UInt8) :
    Method AegisVault AegisError Unit := do
  let table ← Method.lift (KeySlotTable.fromBytes crates tableBytes headerSalt)
  let (_, master) ← Method.lift (table.unsealWith crates passphrase)
  let raw ← Method.lift (U8Array.copyFromSlice MASTER_LEN master.expose)
  let expected := volumeVerifier crates raw
  if expected ≠ table.verifier then Method.fail .volumeMismatch
  else
    Method.update fun vault => { vault with master := AegisKey.new32 raw }
    let hierarchy ← Method.lift (KeyHierarchy.fromMaster crates raw.val)
    Method.update fun vault => { vault with hierarchy := hierarchy }
    Method.update fun vault => { vault with slots := some table }

def verifyVolume {ε : Type} (vault : AegisVault) : Outcome ε Bool :=
  match vault.slots with
  | some table => do
    let raw ← U8Array.copyFromSlice MASTER_LEN vault.master.expose
    return volumeVerifier crates raw == table.verifier
  | none => return false

def slotsToBytes (vault : AegisVault) : Option (List UInt8) := vault.slots.map (·.toBytes crates)

def slotsHeaderSalt (vault : AegisVault) : Option (U8Array 32) := vault.slots.map (·.headerSalt)

def rotateMaster (fresh : U8Array MASTER_LEN) : Method AegisVault AegisError Unit := do
  let newMaster := VolumeKeyRotation.rotate fresh
  let raw ← Method.lift (U8Array.copyFromSlice MASTER_LEN newMaster.expose)
  Method.update fun vault => { vault with master := newMaster }
  let hierarchy ← Method.lift (Outcome.expect (KeyHierarchy.fromMaster crates raw.val))
  Method.update fun vault => { vault with hierarchy := hierarchy }
  Method.update fun vault => { vault with slots := none }

theorem fromMasterKey_eq_ok_iff (master : U8Array MASTER_LEN) (vault : AegisVault) :
    fromMasterKey crates master = .ok vault ↔
      ∃ hierarchy, KeyHierarchy.fromMaster crates master.val = .ok hierarchy ∧
        vault = ⟨AegisKey.new32 master, hierarchy, none⟩ := by
  rw [fromMasterKey, Outcome.bind_eq_ok_iff]
  simp only [Outcome.expect_eq_ok_iff, Outcome.pure_eq, Outcome.ok.injEq, eq_comm]

theorem unlock_eq_ok_iff (passphrase salt : List UInt8) (memoryKib iterations : UInt32) (vault : AegisVault) :
    unlock crates passphrase salt memoryKib iterations = .ok vault ↔
      ∃ raw, argon2idRoot crates passphrase salt memoryKib iterations = .ok (AegisKey.new32 raw) ∧
        fromMasterKey crates raw = .ok vault := by
  constructor
  · intro unlocked
    obtain ⟨master, derived, copying⟩ := (Outcome.bind_eq_ok_iff _ _ _).mp unlocked
    obtain ⟨raw, rfl⟩ := argon2idRoot_ok crates derived
    rw [AegisKey.expose_new32, U8Array.copyFromSlice_val, Outcome.ok_bind] at copying
    exact ⟨raw, derived, copying⟩
  · intro ⟨raw, derived, made⟩
    rw [unlock, derived, Outcome.ok_bind, AegisKey.expose_new32, U8Array.copyFromSlice_val, Outcome.ok_bind, made]

section
variable {crates} {vault next : AegisVault}

theorem copy_master {α : Type} {body : U8Array MASTER_LEN → Method AegisVault AegisError α} {result : AegisResult α}
    (done : (Method.lift (U8Array.copyFromSlice MASTER_LEN vault.master.expose) >>= body) vault = (result, next))
    (returned : result ≠ .panic) : ∃ raw, vault.master = AegisKey.new32 raw ∧ body raw vault = (result, next) := by
  rw [Method.bind_apply, Method.lift_apply] at done
  unfold U8Array.copyFromSlice at done
  split at done
  next raw after ran =>
    split at ran
    next same =>
      cases ran
      exact ⟨⟨vault.master.expose, same⟩, rfl, done⟩
    next => cases ran
  next error after ran => split at ran <;> cases ran
  next => exact absurd (congrArg Prod.fst done).symm returned

theorem sealSlots_ok {passphrase : List UInt8} {draws : TableDraws}
    (done : sealSlots crates passphrase draws vault = (.ok (), next)) :
    ∃ raw table, vault.master = AegisKey.new32 raw ∧
      KeySlotTable.newInitial crates raw passphrase draws = .ok table ∧ next = { vault with slots := some table } := by
  rw [sealSlots, Method.self_bind] at done
  obtain ⟨raw, master, rest⟩ := copy_master done (by simp)
  obtain ⟨table, made, written⟩ := (Method.lift_bind_eq_ok_iff _ _ _ _ _).mp rest
  exact ⟨raw, table, master, made, (congrArg Prod.snd written).symm⟩

theorem sealSlots_err {passphrase : List UInt8} {draws : TableDraws} {error : AegisError}
    (failed : sealSlots crates passphrase draws vault = (.err error, next)) : next = vault := by
  rw [sealSlots, Method.self_bind] at failed
  obtain ⟨raw, _, rest⟩ := copy_master failed (by simp)
  rcases (Method.lift_bind_eq_err_iff _ _ _ _ _).mp rest with ⟨_, same⟩ | ⟨_, _, impossible⟩
  · exact same
  · cases impossible

theorem onTable_eq_iff {α : Type} {table : KeySlotTable} {call : Method KeySlotTable AegisError α}
    {result : AegisResult α} : onTable table call vault = (result, next) ↔
      ∃ after, call table = (result, after) ∧ next = { vault with slots := some after } := by
  simp only [onTable, Prod.ext_iff]
  constructor
  · intro same
    exact ⟨(call table).2, ⟨same.1, rfl⟩, same.2.symm⟩
  · intro ⟨after, same, written⟩
    exact ⟨same.1, by rw [written, same.2]⟩

theorem addSlot_ok {passphrase : List UInt8} {draws : TableDraws} {idx : Nat}
    (done : addSlot crates passphrase draws vault = (.ok idx, next)) :
    ∃ raw, vault.master = AegisKey.new32 raw ∧
      ((∃ table slot, vault.slots = some table ∧ table.slots.length < MAX_SLOTS ∧ idx = table.slots.length ∧
          KeySlot.create crates raw passphrase 64 3 draws.slot = .ok slot ∧
          next = { vault with slots := some { table with slots := table.slots ++ [slot] } }) ∨
        ∃ table, vault.slots = none ∧ idx = 0 ∧ KeySlotTable.newInitial crates raw passphrase draws = .ok table ∧
          next = { vault with slots := some table }) := by
  rw [addSlot, Method.self_bind] at done
  obtain ⟨raw, master, rest⟩ := copy_master done (by simp)
  refine ⟨raw, master, ?_⟩
  cases held : vault.slots with
  | some table =>
    rw [held] at rest
    obtain ⟨after, called, same⟩ := onTable_eq_iff.mp rest
    obtain ⟨room, count, slot, created, grown⟩ := KeySlotTable.addSlot_ok called
    exact Or.inl ⟨table, slot, rfl, room, count, created, by rw [same, grown]⟩
  | none =>
    rw [held] at rest
    cases sealing : sealSlots crates passphrase draws vault with
    | mk result after =>
      cases result with
      | ok value =>
        have returned := (Method.bind_of_ok _ _ sealing).symm.trans rest
        cases returned
        obtain ⟨again, table, masterAgain, made, written⟩ := sealSlots_ok sealing
        rw [master] at masterAgain
        rw [← AegisKey.new32_injective masterAgain] at made
        exact Or.inr ⟨table, rfl, rfl, made, written⟩
      | err error => cases (Method.bind_of_err _ _ sealing).symm.trans rest
      | panic => cases (Method.bind_of_panic _ _ sealing).symm.trans rest

theorem addSlot_err {passphrase : List UInt8} {draws : TableDraws} {error : AegisError}
    (failed : addSlot crates passphrase draws vault = (.err error, next)) : next = vault := by
  rw [addSlot, Method.self_bind] at failed
  obtain ⟨raw, _, rest⟩ := copy_master failed (by simp)
  cases held : vault.slots with
  | some table =>
    rw [held] at rest
    obtain ⟨after, called, same⟩ := onTable_eq_iff.mp rest
    rw [same, KeySlotTable.addSlot_err called, ← held]
  | none =>
    rw [held] at rest
    cases sealing : sealSlots crates passphrase draws vault with
    | mk result after =>
      cases result with
      | ok value => cases (Method.bind_of_ok _ _ sealing).symm.trans rest
      | err error =>
        cases (Method.bind_of_err _ _ sealing).symm.trans rest
        exact sealSlots_err sealing
      | panic => cases (Method.bind_of_panic _ _ sealing).symm.trans rest

theorem revokeSlot_ok {idx : Nat} (done : revokeSlot idx vault = (.ok (), next)) :
    ∃ table slot, vault.slots = some table ∧ table.slots[idx]? = some slot ∧
      (slot.isEnabled = false ∧ next = vault ∨ slot.isEnabled = true ∧ 1 < table.enabledCount ∧
        next = { vault with slots := some { table with slots := table.slots.modify idx KeySlot.revoked } }) := by
  rw [revokeSlot, Method.self_bind] at done
  cases held : vault.slots with
  | some table =>
    rw [held] at done
    obtain ⟨after, called, same⟩ := onTable_eq_iff.mp done
    obtain ⟨slot, found, ⟨disabled, unchanged⟩ | ⟨enabled, several, wiped⟩⟩ := KeySlotTable.revokeSlot_ok called
    · exact ⟨table, slot, rfl, found, Or.inl ⟨disabled, by rw [same, unchanged, ← held]⟩⟩
    · exact ⟨table, slot, rfl, found, Or.inr ⟨enabled, several, by rw [same, wiped]⟩⟩
  | none =>
    rw [held] at done
    cases done

theorem revokeSlot_err {idx : Nat} {error : AegisError} (failed : revokeSlot idx vault = (.err error, next)) :
    next = vault := by
  rw [revokeSlot, Method.self_bind] at failed
  cases held : vault.slots with
  | some table =>
    rw [held] at failed
    obtain ⟨after, called, same⟩ := onTable_eq_iff.mp failed
    rw [same, KeySlotTable.revokeSlot_err called, ← held]
  | none =>
    rw [held] at failed
    exact (congrArg Prod.snd failed).symm

theorem rotateMaster_ok {fresh : U8Array MASTER_LEN} (done : rotateMaster crates fresh vault = (.ok (), next)) :
    ∃ hierarchy, KeyHierarchy.fromMaster crates fresh.val = .ok hierarchy ∧
      next = ⟨AegisKey.new32 fresh, hierarchy, none⟩ := by
  obtain ⟨raw, copied, rest⟩ := (Method.lift_bind_eq_ok_iff _ _ _ _ _).mp done
  rw [VolumeKeyRotation.rotate, AegisKey.expose_new32, U8Array.copyFromSlice_val] at copied
  cases copied
  rw [Method.update_bind] at rest
  obtain ⟨hierarchy, derived, written⟩ := (Method.lift_bind_eq_ok_iff _ _ _ _ _).mp rest
  exact ⟨hierarchy, (Outcome.expect_eq_ok_iff _ _).mp derived, (congrArg Prod.snd written).symm⟩

theorem rotateMaster_ne_err (fresh : U8Array MASTER_LEN) (error : AegisError) :
    rotateMaster crates fresh vault ≠ (.err error, next) := by
  intro failed
  rcases (Method.lift_bind_eq_err_iff _ _ _ _ _).mp failed with ⟨copying, _⟩ | ⟨raw, _, rest⟩
  · rw [VolumeKeyRotation.rotate, AegisKey.expose_new32, U8Array.copyFromSlice_val] at copying
    cases copying
  · rw [Method.update_bind] at rest
    rcases (Method.lift_bind_eq_err_iff _ _ _ _ _).mp rest with ⟨deriving', _⟩ | ⟨hierarchy, _, written⟩
    · cases derived : KeyHierarchy.fromMaster crates raw.val <;> rw [derived] at deriving' <;> cases deriving'
    · cases written

/-- A table was read, opened and checked against its own verifier. -/
structure Recovered (crates : Crates) (tableBytes : List UInt8) (headerSalt : U8Array 32) (passphrase : List UInt8)
    (table : KeySlotTable) (raw : U8Array MASTER_LEN) : Prop where
  read : KeySlotTable.fromBytes crates tableBytes headerSalt = .ok table
  opened : ∃ idx, table.unsealWith crates passphrase = .ok (idx, AegisKey.new32 raw)
  checked : volumeVerifier crates raw = table.verifier

section
variable {tableBytes : List UInt8} {headerSalt : U8Array 32} {passphrase : List UInt8}

theorem unsealWith_raw {table : KeySlotTable} {idx : Nat} {master : AegisKey}
    (opened : table.unsealWith crates passphrase = .ok (idx, master)) : ∃ raw, master = AegisKey.new32 raw := by
  obtain ⟨slot, _, _, unsealed, _⟩ := (KeySlotTable.unsealWith_eq_ok_iff crates _ _ _ _).mp opened
  obtain ⟨_, raw, _, _, same⟩ := (KeySlot.unsealSlot_eq_ok_iff crates _ _ _).mp unsealed
  exact ⟨raw, same⟩

theorem openFromSlots_eq_ok_iff :
    openFromSlots crates tableBytes headerSalt passphrase vault = (.ok (), next) ↔
      ∃ table raw hierarchy, Recovered crates tableBytes headerSalt passphrase table raw ∧
        KeyHierarchy.fromMaster crates raw.val = .ok hierarchy ∧
        next = ⟨AegisKey.new32 raw, hierarchy, some table⟩ := by
  constructor
  · intro done
    obtain ⟨table, read, rest⟩ := (Method.lift_bind_eq_ok_iff _ _ _ _ _).mp done
    obtain ⟨⟨idx, master⟩, opened, rest⟩ := (Method.lift_bind_eq_ok_iff _ _ _ _ _).mp rest
    obtain ⟨raw, rfl⟩ := unsealWith_raw opened
    obtain ⟨copy, copied, rest⟩ := (Method.lift_bind_eq_ok_iff _ _ _ _ _).mp rest
    rw [AegisKey.expose_new32, U8Array.copyFromSlice_val] at copied
    cases copied
    by_cases checked : volumeVerifier crates raw = table.verifier
    · simp only [checked, ne_eq, not_true, if_false] at rest
      rw [Method.update_bind] at rest
      obtain ⟨hierarchy, derived, written⟩ := (Method.lift_bind_eq_ok_iff _ _ _ _ _).mp rest
      exact ⟨table, raw, hierarchy, ⟨read, ⟨idx, opened⟩, checked⟩, derived, (congrArg Prod.snd written).symm⟩
    · simp only [checked, ne_eq, not_false_eq_true, if_true] at rest
      cases rest
  · intro ⟨table, raw, hierarchy, ⟨read, ⟨idx, opened⟩, checked⟩, derived, written⟩
    simp only [openFromSlots, Method.bind_apply, Method.lift_apply, read, opened, AegisKey.expose_new32,
      U8Array.copyFromSlice_val, checked, ne_eq, not_true, if_false, Method.update_apply, derived, written]

/-- A failed opening changes nothing, unless it is the hierarchy that could not be derived. -/
theorem openFromSlots_err {error : AegisError}
    (failed : openFromSlots crates tableBytes headerSalt passphrase vault = (.err error, next)) :
    next = vault ∨ ∃ table raw, Recovered crates tableBytes headerSalt passphrase table raw ∧
      KeyHierarchy.fromMaster crates raw.val = .err error ∧ next = { vault with master := AegisKey.new32 raw } := by
  rcases (Method.lift_bind_eq_err_iff _ _ _ _ _).mp failed with ⟨_, same⟩ | ⟨table, read, rest⟩
  · exact Or.inl same
  rcases (Method.lift_bind_eq_err_iff _ _ _ _ _).mp rest with ⟨_, same⟩ | ⟨⟨idx, master⟩, opened, rest⟩
  · exact Or.inl same
  obtain ⟨raw, rfl⟩ := unsealWith_raw opened
  rcases (Method.lift_bind_eq_err_iff _ _ _ _ _).mp rest with ⟨_, same⟩ | ⟨copy, copied, rest⟩
  · exact Or.inl same
  rw [AegisKey.expose_new32, U8Array.copyFromSlice_val] at copied
  cases copied
  by_cases checked : volumeVerifier crates raw = table.verifier
  · simp only [checked, ne_eq, not_true, if_false] at rest
    rw [Method.update_bind] at rest
    rcases (Method.lift_bind_eq_err_iff _ _ _ _ _).mp rest with ⟨derived, same⟩ | ⟨hierarchy, _, written⟩
    · exact Or.inr ⟨table, raw, ⟨read, ⟨idx, opened⟩, checked⟩, derived, same⟩
    · cases written
  · simp only [checked, ne_eq, not_false_eq_true, if_true] at rest
    exact Or.inl (congrArg Prod.snd rest).symm

end
end
end AegisVault
end SoteriaAegis.Vault
