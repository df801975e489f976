import SoteriaAegis.Vault.Vault
import SoteriaAegis.Slots.Members

/-! Runs of a vault, opening from arbitrary bytes included, and what holds in every state:
master, hierarchy and table belong together. -/

namespace SoteriaAegis.Vault
open Rust Crypto Slots Access

/-- The calls that need nothing from outside, with the system's answers. -/
inductive LocalOp where
  | sealSlots (passphrase : List UInt8) (draws : TableDraws)
  | addSlot (passphrase : List UInt8) (draws : TableDraws)
  | revokeSlot (idx : Nat)
  | rotateMaster (fresh : U8Array MASTER_LEN)

inductive VaultOp where
  | call (op : LocalOp)
  | openFromSlots (tableBytes : List UInt8) (headerSalt : U8Array 32) (passphrase : List UInt8)

variable (crates : Crates)

def LocalOp.step (vault : AegisVault) : LocalOp → Option AegisVault
  | sealSlots passphrase draws => (AegisVault.sealSlots crates passphrase draws).after vault
  | addSlot passphrase draws => (AegisVault.addSlot crates passphrase draws).after vault
  | revokeSlot idx => (AegisVault.revokeSlot idx).after vault
  | rotateMaster fresh => (AegisVault.rotateMaster crates fresh).after vault

def VaultOp.step (vault : AegisVault) : VaultOp → Option AegisVault
  | call op => op.step crates vault
  | openFromSlots tableBytes headerSalt passphrase =>
    (AegisVault.openFromSlots crates tableBytes headerSalt passphrase).after vault

/-- The two ways to start: from a raw master key, or from a passphrase. -/
inductive Created : AegisVault → Prop
  | fromMasterKey {master : U8Array MASTER_LEN} {vault : AegisVault}
      (made : AegisVault.fromMasterKey crates master = .ok vault) : Created vault
  | unlock {passphrase salt : List UInt8} {memoryKib iterations : UInt32} {vault : AegisVault}
      (made : AegisVault.unlock crates passphrase salt memoryKib iterations = .ok vault) : Created vault

theorem Created.fromMaster {vault : AegisVault} (created : Created crates vault) :
    ∃ master, AegisVault.fromMasterKey crates master = .ok vault := by
  cases created with
  | fromMasterKey made => exact ⟨_, made⟩
  | unlock made =>
    obtain ⟨raw, _, opened⟩ := (AegisVault.unlock_eq_ok_iff crates _ _ _ _ _).mp made
    exact ⟨raw, opened⟩

/-- Master, hierarchy and table of a vault belong together. -/
structure Coherent (raw : U8Array MASTER_LEN) (vault : AegisVault) : Prop where
  master : vault.master = AegisKey.new32 raw
  hierarchy : KeyHierarchy.fromMaster crates raw.val = .ok vault.hierarchy
  verifier : ∀ table ∈ vault.slots, table.verifier = volumeVerifier crates raw
  enabled : ∀ table ∈ vault.slots, 0 < table.enabledCount

namespace Coherent
variable {crates} {raw : U8Array MASTER_LEN} {vault next : AegisVault}

theorem of_fromMasterKey (made : AegisVault.fromMasterKey crates raw = .ok vault) : Coherent crates raw vault := by
  obtain ⟨hierarchy, derived, rfl⟩ := (AegisVault.fromMasterKey_eq_ok_iff crates _ _).mp made
  refine ⟨rfl, derived, ?_, ?_⟩
  · intro table impossible
    cases impossible
  · intro table impossible
    cases impossible

theorem same_raw (coherent : Coherent crates raw vault) {other : U8Array MASTER_LEN}
    (master : vault.master = AegisKey.new32 other) : other = raw :=
  AegisKey.new32_injective (master.symm.trans coherent.master)

theorem install (coherent : Coherent crates raw vault) {passphrase : List UInt8} {draws : TableDraws}
    {table : KeySlotTable} (made : KeySlotTable.newInitial crates raw passphrase draws = .ok table) :
    Coherent crates raw { vault with slots := some table } := by
  refine ⟨coherent.master, coherent.hierarchy, ?_, ?_⟩
  · intro installed held
    cases held
    obtain ⟨slot, _, rfl⟩ := (KeySlotTable.newInitial_eq_ok_iff crates _ _ _ _).mp made
    rfl
  · intro installed held
    cases held
    exact KeySlotTable.newInitial_manned made

theorem append (coherent : Coherent crates raw vault) {table : KeySlotTable} (held : vault.slots = some table)
    (slot : KeySlot) : Coherent crates raw { vault with slots := some { table with slots := table.slots ++ [slot] } } := by
  refine ⟨coherent.master, coherent.hierarchy, ?_, ?_⟩
  · intro grown same
    cases same
    exact coherent.verifier table held
  · intro grown same
    cases same
    exact KeySlotTable.append_manned (coherent.enabled table held) slot

theorem revoke (coherent : Coherent crates raw vault) {table : KeySlotTable} (held : vault.slots = some table)
    (several : 1 < table.enabledCount) (idx : Nat) :
    Coherent crates raw { vault with slots := some { table with slots := table.slots.modify idx KeySlot.revoked } } := by
  refine ⟨coherent.master, coherent.hierarchy, ?_, ?_⟩
  · intro wiped same
    cases same
    exact coherent.verifier table held
  · intro wiped same
    cases same
    exact KeySlotTable.revoke_manned several idx

theorem local_step (coherent : Coherent crates raw vault) {op : LocalOp} (stepped : op.step crates vault = some next) :
    ∃ now, Coherent crates now next := by
  cases op with
  | sealSlots passphrase draws =>
    rcases Method.after_cases stepped with ⟨_, done⟩ | ⟨_, failed⟩
    · obtain ⟨found, table, master, made, rfl⟩ := AegisVault.sealSlots_ok done
      rw [coherent.same_raw master] at made
      exact ⟨raw, coherent.install made⟩
    · exact ⟨raw, AegisVault.sealSlots_err failed ▸ coherent⟩
  | addSlot passphrase draws =>
    rcases Method.after_cases stepped with ⟨_, done⟩ | ⟨_, failed⟩
    · obtain ⟨found, master, added⟩ := AegisVault.addSlot_ok done
      rcases added with ⟨table, slot, held, _, _, _, rfl⟩ | ⟨table, _, _, made, rfl⟩
      · exact ⟨raw, coherent.append held slot⟩
      · rw [coherent.same_raw master] at made
        exact ⟨raw, coherent.install made⟩
    · exact ⟨raw, AegisVault.addSlot_err failed ▸ coherent⟩
  | revokeSlot idx =>
    rcases Method.after_cases stepped with ⟨_, done⟩ | ⟨_, failed⟩
    · obtain ⟨table, slot, held, _, revoked⟩ := AegisVault.revokeSlot_ok done
      rcases revoked with ⟨_, rfl⟩ | ⟨_, several, rfl⟩
      · exact ⟨raw, coherent⟩
      · exact ⟨raw, coherent.revoke held several idx⟩
    · exact ⟨raw, AegisVault.revokeSlot_err failed ▸ coherent⟩
  | rotateMaster fresh =>
    rcases Method.after_cases stepped with ⟨_, done⟩ | ⟨_, failed⟩
    · obtain ⟨hierarchy, derived, rfl⟩ := AegisVault.rotateMaster_ok done
      refine ⟨fresh, rfl, derived, ?_, ?_⟩
      · intro table impossible
        cases impossible
      · intro table impossible
        cases impossible
    · exact absurd failed (AegisVault.rotateMaster_ne_err _ _)

theorem of_recovered {tableBytes : List UInt8} {headerSalt : U8Array 32} {passphrase : List UInt8}
    {table : KeySlotTable} {hierarchy : KeyHierarchy}
    (recovered : AegisVault.Recovered crates tableBytes headerSalt passphrase table raw)
    (derived : KeyHierarchy.fromMaster crates raw.val = .ok hierarchy) :
    Coherent crates raw ⟨AegisKey.new32 raw, hierarchy, some table⟩ := by
  refine ⟨rfl, derived, ?_, ?_⟩
  · intro held same
    cases same
    exact recovered.checked.symm
  · intro held same
    cases same
    obtain ⟨idx, opened⟩ := recovered.opened
    obtain ⟨slot, at_idx, enabled, _⟩ := (KeySlotTable.unsealWith_eq_ok_iff crates _ _ _ _).mp opened
    exact (KeySlotTable.enabledCount_pos_iff _).mpr ⟨slot, List.mem_of_getElem? at_idx, enabled⟩

theorem step (expands : crates.ExpandsShort) (coherent : Coherent crates raw vault) {op : VaultOp}
    (stepped : op.step crates vault = some next) : ∃ now, Coherent crates now next := by
  cases op with
  | call op => exact coherent.local_step stepped
  | openFromSlots tableBytes headerSalt passphrase =>
    rcases Method.after_cases stepped with ⟨_, done⟩ | ⟨_, failed⟩
    · obtain ⟨table, found, hierarchy, recovered, derived, rfl⟩ := AegisVault.openFromSlots_eq_ok_iff.mp done
      exact ⟨found, of_recovered recovered derived⟩
    · rcases AegisVault.openFromSlots_err failed with rfl | ⟨table, found, _, refused, _⟩
      · exact ⟨raw, coherent⟩
      · obtain ⟨hierarchy, derived⟩ := KeyHierarchy.fromMaster_total crates expands found.val
        rw [derived] at refused
        cases refused

theorem domain_key (coherent : Coherent crates raw vault) (d : Domain) :
    ∃ okm, hkdfSha256 crates vault.master.expose MASTER_SALT d.infoTag = .ok okm ∧
      vault.domain d = AegisKey.new32 okm := by
  have derived := KeyHierarchy.domain_of_fromMaster crates coherent.hierarchy d
  obtain ⟨okm, expanded, same⟩ := derive_ok crates derived
  rw [coherent.master, AegisKey.expose_new32]
  exact ⟨okm, expanded, same⟩

theorem verifyVolume_eq (coherent : Coherent crates raw vault) :
    (vault.verifyVolume crates : AegisResult Bool) = .ok vault.slots.isSome := by
  unfold AegisVault.verifyVolume
  cases held : vault.slots with
  | none => rfl
  | some table =>
    have same := coherent.verifier table held
    simp only [coherent.master, AegisKey.expose_new32, U8Array.copyFromSlice_val, Outcome.ok_bind, same,
      beq_self_eq_true, Outcome.pure_eq, Option.isSome_some]

end Coherent

theorem recovered_iff {crates : Crates} {master raw : U8Array MASTER_LEN} {owners used : List (List UInt8)}
    {table found : KeySlotTable} (owned : KeySlotTable.Owned crates master owners table) (opens : crates.OpensSealed)
    (inUse : owners ⊆ used) {passphrase : List UInt8} (passphraseUsed : passphrase ∈ used)
    (rejects : ∀ slot ∈ table.slots, RejectsOtherKeys crates used slot) :
    AegisVault.Recovered crates (table.toBytes crates) table.headerSalt passphrase found raw ↔
      found = table ∧ raw = master ∧ ∃ answer, table.unsealWith crates passphrase = .ok answer := by
  have read := KeySlotTable.fromBytes_toBytes crates table owned.small
  constructor
  · intro recovered
    have again := recovered.read
    rw [read] at again
    cases again
    obtain ⟨idx, opened⟩ := recovered.opened
    have same := owned.unsealWith_master opens inUse passphraseUsed rejects opened
    exact ⟨rfl, AegisKey.new32_injective same, _, opened⟩
  · intro ⟨sameTable, sameMaster, ⟨idx, answer⟩, opened⟩
    rw [owned.unsealWith_master opens inUse passphraseUsed rejects opened, ← sameMaster] at opened
    rw [sameTable]
    exact ⟨read, ⟨idx, opened⟩, by rw [owned.verifier, sameMaster]⟩

theorem reached_coherent (expands : crates.ExpandsShort) {start final : AegisVault} (created : Created crates start)
    {ops : List VaultOp} (ran : run (VaultOp.step crates) start ops = some final) :
    ∃ raw, Coherent crates raw final := by
  obtain ⟨master, made⟩ := created.fromMaster
  apply run_invariant (fun vault => ∃ raw, Coherent crates raw vault) _ _ ran
  · intro state op next invariant stepped
    obtain ⟨raw, coherent⟩ := invariant
    exact coherent.step expands stepped
  · exact ⟨master, Coherent.of_fromMasterKey made⟩

/-- The domain keys, the verifier and the volume check of every vault that a run can reach. -/
theorem reached_keys (expands : crates.ExpandsShort) (start final : AegisVault) (created : Created crates start)
    (ops : List VaultOp) (ran : run (VaultOp.step crates) start ops = some final) :
    (∀ d : Domain, ∃ okm, hkdfSha256 crates final.master.expose MASTER_SALT d.infoTag = .ok okm ∧
      final.domain d = AegisKey.new32 okm) ∧
    (∀ table, final.slots = some table →
      (∃ raw, final.master = AegisKey.new32 raw ∧ table.verifier = volumeVerifier crates raw) ∧
        ∃ slot ∈ table.slots, slot.isEnabled = true) ∧
    (final.verifyVolume crates : AegisResult Bool) = .ok final.slots.isSome := by
  obtain ⟨raw, coherent⟩ := reached_coherent crates expands created ran
  refine ⟨coherent.domain_key, ?_, coherent.verifyVolume_eq⟩
  intro table held
  refine ⟨⟨raw, coherent.master, coherent.verifier table held⟩, ?_⟩
  exact (KeySlotTable.enabledCount_pos_iff table).mp (coherent.enabled table held)

theorem reached_keys_rotated : ∃ start final, Created checksumCrates start ∧
    run (VaultOp.step checksumCrates) start
      [.call (.sealSlots (ascii "alice") TableDraws.blank), .call (.rotateMaster (U8Array.zeros 32)),
        .call (.addSlot (ascii "bob") TableDraws.blank), .openFromSlots [] (U8Array.zeros 32) (ascii "bob")] =
      some final ∧ (final.verifyVolume checksumCrates : AegisResult Bool) = .ok final.slots.isSome := by
  have reached : ((AegisVault.unlock checksumCrates (ascii "alice") (ascii "some salt") 32768 2).toOption.bind
      fun start => run (VaultOp.step checksumCrates) start
        [.call (.sealSlots (ascii "alice") TableDraws.blank), .call (.rotateMaster (U8Array.zeros 32)),
          .call (.addSlot (ascii "bob") TableDraws.blank),
          .openFromSlots [] (U8Array.zeros 32) (ascii "bob")]).isSome = true := by
    decide +kernel
  obtain ⟨final, found⟩ := Option.isSome_iff_exists.mp reached
  obtain ⟨start, unlocked, ran⟩ := Option.bind_eq_some_iff.mp found
  have made := (Outcome.toOption_eq_some_iff _ _).mp unlocked
  have created : Created checksumCrates start := Created.unlock made
  have keys := reached_keys checksumCrates checksumCrates_expandsShort start final created _ ran
  exact ⟨start, final, created, ran, keys.2.2⟩

end SoteriaAegis.Vault
