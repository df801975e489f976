import SoteriaAegis.Vault.Refusals
import SoteriaAegis.Vault.Panics

/-! When the calls on a live vault fail, and with which error. What the crates refuse and what the
table does not allow are told apart, in every state that a run reaches. -/

namespace SoteriaAegis.Crypto
open Rust

theorem argon2idRoot_err {crates : Crates} {passphrase salt : List UInt8}
    {memoryKib iterations : UInt32} {error : AegisError}
    (failed : argon2idRoot crates passphrase salt memoryKib iterations = .err error) :
    error = .argon2 := by
  rcases (Outcome.bind_eq_err_iff _ _ _).mp failed with refused | ⟨params, _, rest⟩
  · exact ((Outcome.okOr_eq_err_iff _ _ _).mp refused).2.symm
  · rcases (Outcome.bind_eq_err_iff _ _ _).mp rest with refused | ⟨out, _, made⟩
    · exact ((Outcome.okOr_eq_err_iff _ _ _).mp refused).2.symm
    · cases made

theorem AeadCipher.aeadSeal_eq_bind {crates : Crates} (cipher : AeadCipher) (fill : OsFill)
    (plaintext aad : List UInt8) :
    cipher.aeadSeal crates fill plaintext aad =
      Outcome.okOr .aeadSeal (crates.encrypt cipher.algo cipher.key (fill cipher.algo.nonceLen)
        plaintext aad) >>= fun ct => .ok ((fill cipher.algo.nonceLen).val, ct) := by
  rw [AeadCipher.aeadSeal_eq]
  cases crates.encrypt cipher.algo cipher.key (fill cipher.algo.nonceLen) plaintext aad with
  | some ct => rfl
  | none => rfl

end SoteriaAegis.Crypto

namespace SoteriaAegis.Slots
open Rust Crypto

/-- The crates refuse to make a slot: no key is derived, or it does not seal the master. -/
inductive Unmade (crates : Crates) (master : U8Array MASTER_LEN) (passphrase : List UInt8)
    (draws : SlotDraws) :
    AegisError → Prop where
  | underived (refused : argon2idRoot crates passphrase draws.salt.val 64 3 = .err .argon2) :
      Unmade crates master passphrase draws .argon2
  | unsealed (key : U8Array 32)
      (derived : argon2idRoot crates passphrase draws.salt.val 64 3 = .ok (AegisKey.new32 key))
      (refused : crates.aes256GcmEncrypt key (draws.fill NONCE_LEN) master.val HEADER_MAGIC =
        none) :
      Unmade crates master passphrase draws .aeadSeal

variable {crates : Crates} {master : U8Array MASTER_LEN} {passphrase : List UInt8}
  {error : AegisError}

theorem KeySlot.create_err_iff {draws : SlotDraws} :
    KeySlot.create crates master passphrase 64 3 draws = .err error ↔
    Unmade crates master passphrase draws error := by
  have wrapped : ∀ key : U8Array 32,
      (AeadCipher.new .aes256Gcm key).aeadSeal crates draws.fill master.val HEADER_MAGIC =
        Outcome.okOr .aeadSeal (crates.aes256GcmEncrypt key (draws.fill NONCE_LEN) master.val
          HEADER_MAGIC) >>=
          fun ct => .ok ((draws.fill NONCE_LEN).val, ct) :=
    fun key => AeadCipher.aeadSeal_eq_bind (AeadCipher.new .aes256Gcm key) draws.fill _ _
  constructor
  · intro failed
    rcases (Outcome.bind_eq_err_iff _ _ _).mp failed with refused | ⟨root, derived, rest⟩
    · cases argon2idRoot_err refused
      exact Unmade.underived refused
    obtain ⟨key, rfl⟩ := argon2idRoot_ok crates derived
    simp only [AegisKey.expose_new32, U8Array.copyFromSlice_val, Outcome.ok_bind, wrapped] at rest
    cases encrypted : crates.aes256GcmEncrypt key (draws.fill NONCE_LEN) master.val
      HEADER_MAGIC with
    | none =>
      rw [encrypted] at rest
      cases rest
      exact Unmade.unsealed key derived encrypted
    | some ct =>
      simp only [encrypted, Outcome.okOr_some, Outcome.ok_bind, U8Array.copyFromSlice_val] at rest
      rcases (Outcome.bind_eq_err_iff _ _ _).mp rest with refused | ⟨copy, _, built⟩
      · unfold U8Array.copyFromSlice at refused
        split at refused
        next => cases refused
        next => cases refused
      · cases built
  · intro unmade
    cases unmade with
    | underived refused => rw [KeySlot.create, refused, Outcome.err_bind]
    | unsealed key derived refused =>
      simp only [KeySlot.create, derived, Outcome.ok_bind, AegisKey.expose_new32,
        U8Array.copyFromSlice_val, wrapped, refused, Outcome.okOr_none, Outcome.err_bind]

theorem KeySlotTable.newInitial_err_iff {draws : TableDraws} :
    KeySlotTable.newInitial crates master passphrase draws = .err error ↔
      Unmade crates master passphrase draws.slot error := by
  rw [← KeySlot.create_err_iff, KeySlotTable.newInitial, Outcome.bind_eq_err_iff]
  simp only [Outcome.pure_eq, reduceCtorEq, and_false, exists_false, or_false]

theorem KeySlotTable.addSlot_err_iff {draws : SlotDraws} {table : KeySlotTable} :
    (KeySlotTable.addSlot crates master passphrase draws table).1 = .err error ↔
      MAX_SLOTS ≤ table.slots.length ∧ error = .slotTableFull MAX_SLOTS ∨
        table.slots.length < MAX_SLOTS ∧ Unmade crates master passphrase draws error := by
  rw [KeySlotTable.addSlot_eq, ← KeySlot.create_err_iff]
  by_cases full : MAX_SLOTS ≤ table.slots.length
  · simp only [full, if_true, Nat.not_lt.mpr full, true_and, false_and, or_false,
      Outcome.err.injEq, eq_comm]
  · simp only [full, if_false, Nat.lt_of_not_le full, true_and, false_and, false_or]
    cases KeySlot.create crates master passphrase 64 3 draws with
    | ok slot => simp
    | err found => simp
    | panic => simp

theorem KeySlotTable.revokeSlot_err_iff {idx : Nat} {table : KeySlotTable} :
    (KeySlotTable.revokeSlot idx table).1 = .err error ↔
      table.slots.length ≤ idx ∧ error = .slotUnseal ∨
        (table.enabledCount ≤ 1 ∧ ∃ slot, table.slots[idx]? = some slot ∧ slot.isEnabled = true) ∧
          error = .lastSlotRevocation := by
  rw [KeySlotTable.revokeSlot_eq, ← List.getElem?_eq_none_iff]
  cases found : table.slots[idx]? with
  | none => simp [@eq_comm _ error]
  | some slot =>
    by_cases enabled : slot.isEnabled = true
    · by_cases last : table.enabledCount ≤ 1
      · simp [enabled, last, @eq_comm _ error]
      · simp [enabled, last]
    · simp [enabled]

end SoteriaAegis.Slots

namespace SoteriaAegis.Vault
open Rust Crypto Slots

/-- When the calls on a vault whose master is `raw` fail. No other error is ever returned. -/
structure FailsExactly (crates : Crates) (raw : U8Array MASTER_LEN) (vault : AegisVault) :
    Prop where
  sealSlots : ∀ passphrase draws error,
    (AegisVault.sealSlots crates passphrase draws vault).1 = .err error ↔
    Unmade crates raw passphrase draws.slot error
  addSlot : ∀ passphrase draws error,
    (AegisVault.addSlot crates passphrase draws vault).1 = .err error ↔
    (∃ table, vault.slots = some table ∧ MAX_SLOTS ≤ table.slots.length) ∧
      error = .slotTableFull MAX_SLOTS ∨
      (∀ table, vault.slots = some table → table.slots.length < MAX_SLOTS) ∧
        Unmade crates raw passphrase draws.slot error
  revokeSlot : ∀ idx error, (AegisVault.revokeSlot idx vault).1 = .err error ↔
    (∃ table, vault.slots = some table ∧ table.slots.length ≤ idx) ∧ error = .slotUnseal ∨
      (∀ table, vault.slots = some table → table.enabledCount = 1 ∧
        ∃ slot, table.slots[idx]? = some slot ∧ slot.isEnabled = true) ∧ error = .lastSlotRevocation
  openFromSlots : ∀ tableBytes headerSalt passphrase error,
    (AegisVault.openFromSlots crates tableBytes headerSalt passphrase vault).1 = .err error ↔
      Refused crates tableBytes headerSalt passphrase error
  encrypt : ∀ d plaintext aad algo fill error,
    vault.encrypt crates d plaintext aad algo fill = .err error ↔
    error = .aeadSeal ∧ ∃ key, vault.domain d = AegisKey.new32 key ∧
      crates.encrypt algo key (fill algo.nonceLen) plaintext aad = none
  decrypt : ∀ d nonce ciphertext aad algo error,
    vault.decrypt crates d nonce ciphertext aad algo = .err error ↔
    error = .aeadOpen ∧ ∀ fits : nonce.length = algo.nonceLen, ∃ key,
      vault.domain d = AegisKey.new32 key ∧
      crates.decrypt algo key ⟨nonce, fits⟩ ciphertext aad = none
  rotateMaster : ∀ fresh error, (AegisVault.rotateMaster crates fresh vault).1 ≠ .err error
  verifyVolume : ∀ error, (vault.verifyVolume crates : AegisResult Bool) ≠ .err error

variable {crates : Crates} {raw : U8Array MASTER_LEN} {vault : AegisVault} {error : AegisError}

theorem Coherent.copied {α : Type} (coherent : Coherent crates raw vault)
    (body : U8Array MASTER_LEN → Method AegisVault AegisError α) :
    (Method.lift (U8Array.copyFromSlice MASTER_LEN vault.master.expose) >>= body) vault =
    body raw vault := by
  simp only [coherent.master, AegisKey.expose_new32, U8Array.copyFromSlice_val, Method.bind_apply,
    Method.lift_apply]

theorem AegisVault.unlock_err_iff (expands : crates.ExpandsShort) {passphrase salt : List UInt8}
    {memoryKib iterations : UInt32} :
    AegisVault.unlock crates passphrase salt memoryKib iterations = .err error ↔
      argon2idRoot crates passphrase salt memoryKib iterations = .err error := by
  cases derived : argon2idRoot crates passphrase salt memoryKib iterations with
  | ok root =>
    obtain ⟨raw, rfl⟩ := argon2idRoot_ok crates derived
    obtain ⟨hierarchy, made⟩ := KeyHierarchy.fromMaster_total crates expands raw.val
    have unlocked := (AegisVault.unlock_eq_ok_iff crates passphrase salt memoryKib iterations _).mpr
      ⟨raw, derived, (AegisVault.fromMasterKey_eq_ok_iff crates _ _).mpr ⟨hierarchy, made, rfl⟩⟩
    simp only [unlocked, reduceCtorEq]
  | err found => simp only [AegisVault.unlock, derived, Outcome.err_bind, Outcome.err.injEq]
  | panic => simp only [AegisVault.unlock, derived, Outcome.panic_bind, reduceCtorEq]

theorem Coherent.sealSlots_err_iff (coherent : Coherent crates raw vault) {passphrase : List UInt8}
    {draws : TableDraws} :
    (AegisVault.sealSlots crates passphrase draws vault).1 = .err error ↔
      Unmade crates raw passphrase draws.slot error := by
  rw [AegisVault.sealSlots, Method.self_bind, coherent.copied, ← KeySlotTable.newInitial_err_iff,
    Method.bind_apply, Method.lift_apply]
  cases KeySlotTable.newInitial crates raw passphrase draws with
  | ok table => simp
  | err found => simp
  | panic => simp

theorem Coherent.addSlot_err_iff (coherent : Coherent crates raw vault) {passphrase : List UInt8}
    {draws : TableDraws} :
    (AegisVault.addSlot crates passphrase draws vault).1 = .err error ↔
      (∃ table, vault.slots = some table ∧ MAX_SLOTS ≤ table.slots.length) ∧
      error = .slotTableFull MAX_SLOTS ∨
        (∀ table, vault.slots = some table → table.slots.length < MAX_SLOTS) ∧
          Unmade crates raw passphrase draws.slot error := by
  rw [AegisVault.addSlot, Method.self_bind, coherent.copied]
  cases held : vault.slots with
  | some table =>
    simp only [Option.some.injEq, exists_eq_left', forall_eq']
    exact KeySlotTable.addSlot_err_iff
  | none =>
    simp only [reduceCtorEq, false_and, exists_false, false_or, IsEmpty.forall_iff,
      implies_true, true_and]
    rw [← coherent.sealSlots_err_iff, Method.bind_apply]
    cases AegisVault.sealSlots crates passphrase draws vault with
    | mk result after =>
      cases result with
      | ok value => simp
      | err found => simp
      | panic => simp

theorem Coherent.revokeSlot_err_iff (coherent : Coherent crates raw vault) {idx : Nat} :
    (AegisVault.revokeSlot idx vault).1 = .err error ↔
      (∃ table, vault.slots = some table ∧ table.slots.length ≤ idx) ∧ error = .slotUnseal ∨
        (∀ table, vault.slots = some table → table.enabledCount = 1 ∧
          ∃ slot, table.slots[idx]? = some slot ∧ slot.isEnabled = true) ∧
          error = .lastSlotRevocation := by
  rw [AegisVault.revokeSlot, Method.self_bind]
  cases held : vault.slots with
  | some table =>
    have manned := coherent.enabled table held
    have single : table.enabledCount ≤ 1 ↔ table.enabledCount = 1 := by omega
    simp only [Option.some.injEq, exists_eq_left', forall_eq', ← single]
    exact KeySlotTable.revokeSlot_err_iff
  | none => simp [@eq_comm _ error]

theorem Coherent.encrypt_err_iff (coherent : Coherent crates raw vault) {d : Domain}
    {plaintext aad : List UInt8} {algo : AeadAlgo} {fill : OsFill} :
    vault.encrypt crates d plaintext aad algo fill = .err error ↔
      error = .aeadSeal ∧ ∃ key, vault.domain d = AegisKey.new32 key ∧
        crates.encrypt algo key (fill algo.nonceLen) plaintext aad = none := by
  obtain ⟨key, _, keyed⟩ := coherent.domain_key d
  have domainKey : vault.hierarchy.domain d = AegisKey.new32 key := keyed
  simp only [AegisVault.encrypt, keyed, domainKey, AegisKey.expose_new32, U8Array.copyFromSlice_val,
    Outcome.ok_bind,
    AegisKey.new32_injective.eq_iff, exists_eq_left', AeadCipher.aeadSeal_eq, AeadCipher.new]
  cases crates.encrypt algo key (fill algo.nonceLen) plaintext aad with
  | none => simp [@eq_comm _ error]
  | some ct => simp

theorem Coherent.decrypt_err_iff (coherent : Coherent crates raw vault) {d : Domain}
    {nonce ciphertext aad : List UInt8}
    {algo : AeadAlgo} : vault.decrypt crates d nonce ciphertext aad algo = .err error ↔
      error = .aeadOpen ∧ ∀ fits : nonce.length = algo.nonceLen, ∃ key,
      vault.domain d = AegisKey.new32 key ∧
        crates.decrypt algo key ⟨nonce, fits⟩ ciphertext aad = none := by
  obtain ⟨key, _, keyed⟩ := coherent.domain_key d
  have domainKey : vault.hierarchy.domain d = AegisKey.new32 key := keyed
  simp only [AegisVault.decrypt, keyed, domainKey, AegisKey.expose_new32, U8Array.copyFromSlice_val,
    Outcome.ok_bind,
    AegisKey.new32_injective.eq_iff, exists_eq_left', AeadCipher.aeadOpen_eq, AeadCipher.new]
  by_cases fits : nonce.length = algo.nonceLen
  · simp only [fits, dif_pos, Outcome.okOr_eq_err_iff, forall_true_left, @eq_comm _ error, and_comm]
  · simp only [fits, dif_neg, not_false_eq_true, Outcome.err.injEq, @eq_comm _ error,
      IsEmpty.forall_iff, and_true]

theorem Coherent.failsExactly (expands : crates.ExpandsShort)
    (coherent : Coherent crates raw vault) :
    FailsExactly crates raw vault where
  sealSlots _ _ _ := coherent.sealSlots_err_iff
  addSlot _ _ _ := coherent.addSlot_err_iff
  revokeSlot _ _ := coherent.revokeSlot_err_iff
  openFromSlots tableBytes headerSalt passphrase error :=
    opening_refused_iff expands tableBytes headerSalt passphrase vault error
  encrypt _ _ _ _ _ _ := coherent.encrypt_err_iff
  decrypt _ _ _ _ _ _ := coherent.decrypt_err_iff
  rotateMaster fresh error := by
    intro failed
    exact AegisVault.rotateMaster_ne_err fresh error (Method.eq_of_fst _ failed)
  verifyVolume error := by
    unfold AegisVault.verifyVolume
    cases vault.slots with
    | none => simp
    | some table => simp only [coherent.master, AegisKey.expose_new32, U8Array.copyFromSlice_val,
      Outcome.ok_bind,
        Outcome.pure_eq, ne_eq, reduceCtorEq, not_false_eq_true]

/-- In every state that a run reaches, each call fails exactly with the error that its arguments,
the table and the crates' refusals give. -/
theorem live_failures_exact (expands : crates.ExpandsShort) (start final : AegisVault)
    (created : Created crates start) (ops : List VaultOp)
    (ran : run (VaultOp.step crates) start ops = some final) :
    ∃ raw, final.master = AegisKey.new32 raw ∧ FailsExactly crates raw final := by
  obtain ⟨raw, coherent⟩ := reached_coherent crates expands created ran
  exact ⟨raw, coherent.master, coherent.failsExactly expands⟩

theorem live_failures_rotated : ∃ start final raw, Created checksumCrates start ∧
    run (VaultOp.step checksumCrates) start rotated = some final ∧
    final.master = AegisKey.new32 raw ∧
    FailsExactly checksumCrates raw final ∧
    (AegisVault.revokeSlot 0 final).1 = .err .lastSlotRevocation ∧
    ∃ table, final.slots = some table ∧
      Refused checksumCrates (table.toBytes checksumCrates) table.headerSalt (ascii "alice")
        .noSlotUnsealed := by
  have reached : (AegisVault.unlock checksumCrates (ascii "alice") (ascii "some salt") 32768
    2).toOption.any
      (fun start => (run (VaultOp.step checksumCrates) start rotated).any fun final =>
        (AegisVault.revokeSlot 0 final).1 = .err .lastSlotRevocation ∧ ∃ table ∈ final.slots,
          (AegisVault.openFromSlots checksumCrates (table.toBytes checksumCrates) table.headerSalt
            (ascii "alice")
            final).1 = .err .noSlotUnsealed) = true := by
    decide +kernel
  obtain ⟨start, unlocked, passed⟩ := Outcome.ok_of_any reached
  obtain ⟨final, ran, checked⟩ := (Option.any_eq_true _ _).mp passed
  obtain ⟨last, table, held, refused⟩ := of_decide_eq_true checked
  have created : Created checksumCrates start := Created.unlock unlocked
  obtain ⟨raw, master, exact⟩ :=
    live_failures_exact checksumCrates_expandsShort start final created rotated ran
  exact ⟨start, final, raw, created, ran, master, exact, last, table, held,
    (exact.openFromSlots _ _ _ _).mp refused⟩

end SoteriaAegis.Vault
