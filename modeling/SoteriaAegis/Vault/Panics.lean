import SoteriaAegis.Vault.Coherence

/-! No method of a live vault panics. The master and the six domain keys are copied into fixed
buffers, and they fit in every state that a run can reach. What is left is the parser of a
stored table. -/

namespace SoteriaAegis.Vault
open Rust Crypto Slots

/-- No call on the vault panics, whatever its arguments and the system's answers. Opening is
judged from the parsed table on. -/
structure NeverPanics (crates : Crates) (vault : AegisVault) : Prop where
  encrypt : ∀ d plaintext aad algo fill, vault.encrypt crates d plaintext aad algo fill ≠ .panic
  decrypt : ∀ d nonce ciphertext aad algo, vault.decrypt crates d nonce ciphertext aad algo ≠ .panic
  sealSlots : ∀ passphrase draws, (AegisVault.sealSlots crates passphrase draws vault).1 ≠ .panic
  addSlot : ∀ passphrase draws, (AegisVault.addSlot crates passphrase draws vault).1 ≠ .panic
  revokeSlot : ∀ idx, (AegisVault.revokeSlot idx vault).1 ≠ .panic
  verifyVolume : (vault.verifyVolume crates : AegisResult Bool) ≠ .panic
  rotateMaster : ∀ fresh, (AegisVault.rotateMaster crates fresh vault).1 ≠ .panic
  openFromSlots : ∀ tableBytes headerSalt passphrase, KeySlotTable.fromBytes crates tableBytes headerSalt ≠ .panic →
    (AegisVault.openFromSlots crates tableBytes headerSalt passphrase vault).1 ≠ .panic

variable {crates : Crates} {vault : AegisVault}

namespace AegisVault

theorem fromMasterKey_ne_panic (expands : crates.ExpandsShort) (master : U8Array MASTER_LEN) :
    fromMasterKey crates master ≠ .panic := by
  apply Outcome.bind_ne_panic (KeyHierarchy.expect_ne_panic crates expands _)
  intro hierarchy _
  exact Outcome.ok_ne_panic _

theorem unlock_ne_panic (expands : crates.ExpandsShort) (passphrase salt : List UInt8)
    (memoryKib iterations : UInt32) : unlock crates passphrase salt memoryKib iterations ≠ .panic := by
  apply Outcome.bind_ne_panic (argon2idRoot_ne_panic crates _ _ _ _)
  intro master derived
  obtain ⟨raw, rfl⟩ := argon2idRoot_ok crates derived
  rw [AegisKey.expose_new32, U8Array.copyFromSlice_val, Outcome.ok_bind]
  exact fromMasterKey_ne_panic expands raw

theorem revokeSlot_ne_panic (idx : Nat) : (revokeSlot idx vault).1 ≠ .panic := by
  rw [revokeSlot, Method.self_bind]
  cases vault.slots with
  | some table => exact KeySlotTable.revokeSlot_ne_panic idx table
  | none => exact Outcome.err_ne_panic _

theorem rotateMaster_ne_panic (expands : crates.ExpandsShort) (fresh : U8Array MASTER_LEN) :
    (rotateMaster crates fresh vault).1 ≠ .panic := by
  apply Method.lift_bind_ne_panic (AegisKey.new32_fits fresh)
  intro raw _
  rw [Method.update_bind]
  apply Method.lift_bind_ne_panic (KeyHierarchy.expect_ne_panic crates expands _)
  intro hierarchy _
  exact Outcome.ok_ne_panic _

theorem openFromSlots_ne_panic (expands : crates.ExpandsShort) {tableBytes : List UInt8} {headerSalt : U8Array 32}
    (parses : KeySlotTable.fromBytes crates tableBytes headerSalt ≠ .panic) (passphrase : List UInt8) :
    (openFromSlots crates tableBytes headerSalt passphrase vault).1 ≠ .panic := by
  apply Method.lift_bind_ne_panic parses
  intro table _
  apply Method.lift_bind_ne_panic (KeySlotTable.unsealWith_ne_panic crates table passphrase)
  intro (idx, master) opened
  obtain ⟨raw, rfl⟩ := unsealWith_raw opened
  apply Method.lift_bind_ne_panic (AegisKey.new32_fits raw)
  intro copy _
  by_cases checked : volumeVerifier crates copy = table.verifier
  · rw [if_neg (not_not.mpr checked), Method.update_bind]
    apply Method.lift_bind_ne_panic (KeyHierarchy.fromMaster_ne_panic crates expands _)
    intro hierarchy _
    exact Outcome.ok_ne_panic _
  · rw [if_pos checked]
    exact Outcome.err_ne_panic _

end AegisVault

namespace Coherent
variable {raw : U8Array MASTER_LEN}

theorem master_fits {ε : Type} (coherent : Coherent crates raw vault) :
    (U8Array.copyFromSlice MASTER_LEN vault.master.expose : Outcome ε (U8Array MASTER_LEN)) ≠ .panic := by
  rw [coherent.master]
  exact AegisKey.new32_fits raw

theorem domain_fits {ε : Type} (coherent : Coherent crates raw vault) (d : Domain) :
    (U8Array.copyFromSlice 32 (vault.hierarchy.domain d).expose : Outcome ε (U8Array 32)) ≠ .panic := by
  obtain ⟨okm, _, keyed⟩ := coherent.domain_key d
  have same : vault.hierarchy.domain d = AegisKey.new32 okm := keyed
  rw [same]
  exact AegisKey.new32_fits okm

theorem encrypt_ne_panic (coherent : Coherent crates raw vault) (d : Domain) (plaintext aad : List UInt8)
    (algo : AeadAlgo) (fill : OsFill) : vault.encrypt crates d plaintext aad algo fill ≠ .panic := by
  apply Outcome.bind_ne_panic (coherent.domain_fits d)
  intro key _
  exact AeadCipher.aeadSeal_ne_panic crates _ _ _ _

theorem decrypt_ne_panic (coherent : Coherent crates raw vault) (d : Domain) (nonce ciphertext aad : List UInt8)
    (algo : AeadAlgo) : vault.decrypt crates d nonce ciphertext aad algo ≠ .panic := by
  apply Outcome.bind_ne_panic (coherent.domain_fits d)
  intro key _
  exact AeadCipher.aeadOpen_ne_panic crates _ _ _ _

theorem sealSlots_ne_panic (coherent : Coherent crates raw vault) (tags : crates.AppendsTag)
    (passphrase : List UInt8) (draws : TableDraws) : (AegisVault.sealSlots crates passphrase draws vault).1 ≠ .panic := by
  rw [AegisVault.sealSlots, Method.self_bind]
  apply Method.lift_bind_ne_panic coherent.master_fits
  intro copy _
  apply Method.lift_bind_ne_panic (KeySlotTable.newInitial_ne_panic crates tags _ _ _)
  intro table _
  exact Outcome.ok_ne_panic _

theorem addSlot_ne_panic (coherent : Coherent crates raw vault) (tags : crates.AppendsTag)
    (passphrase : List UInt8) (draws : TableDraws) : (AegisVault.addSlot crates passphrase draws vault).1 ≠ .panic := by
  rw [AegisVault.addSlot, Method.self_bind]
  apply Method.lift_bind_ne_panic coherent.master_fits
  intro copy _
  cases vault.slots with
  | some table => exact KeySlotTable.addSlot_ne_panic crates tags copy passphrase draws.slot table
  | none =>
    apply Method.bind_ne_panic (coherent.sealSlots_ne_panic tags passphrase draws)
    intro value after _
    exact Outcome.ok_ne_panic _

theorem neverPanics (coherent : Coherent crates raw vault) (expands : crates.ExpandsShort) (tags : crates.AppendsTag) :
    NeverPanics crates vault where
  encrypt := coherent.encrypt_ne_panic
  decrypt := coherent.decrypt_ne_panic
  sealSlots := coherent.sealSlots_ne_panic tags
  addSlot := coherent.addSlot_ne_panic tags
  revokeSlot idx := AegisVault.revokeSlot_ne_panic idx
  verifyVolume := by
    rw [coherent.verifyVolume_eq]
    exact Outcome.ok_ne_panic _
  rotateMaster := AegisVault.rotateMaster_ne_panic expands
  openFromSlots _ _ passphrase parses := AegisVault.openFromSlots_ne_panic expands parses passphrase

end Coherent

def VaultOp.Parses (crates : Crates) : VaultOp → Prop
  | call _ => True
  | openFromSlots tableBytes headerSalt _ => KeySlotTable.fromBytes crates tableBytes headerSalt ≠ .panic

theorem VaultOp.step_isSome_iff (never : NeverPanics crates vault) (op : VaultOp) :
    (op.step crates vault).isSome = true ↔ op.Parses crates := by
  cases op with
  | call op =>
    refine iff_of_true ?_ trivial
    cases op with
    | sealSlots passphrase draws => exact (Method.after_isSome_iff _ _).mpr (never.sealSlots passphrase draws)
    | addSlot passphrase draws => exact (Method.after_isSome_iff _ _).mpr (never.addSlot passphrase draws)
    | revokeSlot idx => exact (Method.after_isSome_iff _ _).mpr (never.revokeSlot idx)
    | rotateMaster fresh => exact (Method.after_isSome_iff _ _).mpr (never.rotateMaster fresh)
  | openFromSlots tableBytes headerSalt passphrase =>
    refine (Method.after_isSome_iff _ _).trans ⟨?_, never.openFromSlots tableBytes headerSalt passphrase⟩
    intro returned panicked
    apply returned
    rw [AegisVault.openFromSlots, panicked]
    rfl

theorem run_isSome_iff (expands : crates.ExpandsShort) (tags : crates.AppendsTag) {start : AegisVault}
    (created : Created crates start) (ops : List VaultOp) :
    (run (VaultOp.step crates) start ops).isSome = true ↔ ∀ op ∈ ops, op.Parses crates := by
  obtain ⟨master, made⟩ := created.fromMaster
  have live : ∃ raw, Coherent crates raw start := ⟨master, Coherent.of_fromMasterKey made⟩
  clear created made
  induction ops generalizing start with
  | nil => simp
  | cons op ops ih =>
    obtain ⟨raw, coherent⟩ := live
    have goes := op.step_isSome_iff (coherent.neverPanics expands tags)
    rw [run_cons, List.forall_mem_cons, ← goes]
    cases stepped : op.step crates start with
    | none => simp
    | some next =>
      have rest := ih (coherent.step expands stepped)
      rw [Option.bind_some, Option.isSome_some]
      exact rest.trans (and_iff_right rfl).symm

/-- In every state that a run reaches no method panics: every copy of a key finds the length
it expects, every index and nonce is tested before it is used, and no `expect` fails. -/
theorem live_never_panics (expands : crates.ExpandsShort) (tags : crates.AppendsTag) (start final : AegisVault)
    (created : Created crates start) (ops : List VaultOp) (ran : run (VaultOp.step crates) start ops = some final) :
    NeverPanics crates final ∧ ∀ passphrase salt memoryKib iterations,
      AegisVault.unlock crates passphrase salt memoryKib iterations ≠ .panic := by
  obtain ⟨raw, coherent⟩ := reached_coherent crates expands created ran
  exact ⟨coherent.neverPanics expands tags, AegisVault.unlock_ne_panic expands⟩

def rotated : List VaultOp :=
  [.call (.sealSlots (ascii "alice") TableDraws.blank), .call (.rotateMaster (U8Array.zeros 32)),
    .call (.addSlot (ascii "bob") TableDraws.blank), .openFromSlots [] (U8Array.zeros 32) (ascii "bob")]

theorem live_never_panics_rotated : ∃ start final, Created checksumCrates start ∧
    run (VaultOp.step checksumCrates) start rotated = some final ∧ NeverPanics checksumCrates final ∧
    ∀ passphrase, AegisVault.unlock checksumCrates passphrase (ascii "some salt") 32768 2 ≠ .panic := by
  have unlocks : (AegisVault.unlock checksumCrates (ascii "alice") (ascii "some salt") 32768 2).toOption.isSome =
      true := by
    decide +kernel
  have refused : KeySlotTable.fromBytes checksumCrates [] (U8Array.zeros 32) = .err .serialization := by
    decide +kernel
  obtain ⟨start, unlocked⟩ := Outcome.ok_of_isSome unlocks
  have created : Created checksumCrates start := Created.unlock unlocked
  have parses : ∀ op ∈ rotated, op.Parses checksumCrates := by
    simp [rotated, VaultOp.Parses, refused]
  obtain ⟨final, ran⟩ := Option.isSome_iff_exists.mp
    ((run_isSome_iff checksumCrates_expandsShort checksumCrates_appendsTag created rotated).mpr parses)
  obtain ⟨never, unlocksAlways⟩ :=
    live_never_panics checksumCrates_expandsShort checksumCrates_appendsTag start final created rotated ran
  exact ⟨start, final, created, ran, never, fun passphrase => unlocksAlways passphrase _ _ _⟩

end SoteriaAegis.Vault
