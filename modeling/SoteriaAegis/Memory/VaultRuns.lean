import SoteriaAegis.Memory.Vaults

/-! Whole runs of a vault in memory. They agree with the runs on values, whatever else is on the
heap; the boxes in use are the seven keys of the vault and those of others. -/

namespace SoteriaAegis.Memory
open Rust Crypto Slots Vault

inductive Start where
  | fromMasterKey (master : U8Array MASTER_LEN)
  | unlock (passphrase salt : List UInt8) (memoryKib iterations : UInt32)

variable {platform : Platform} (crates : Crates)

def Start.boxed : Start → Method (Heap platform) AegisError BoxedVault
  | fromMasterKey master => BoxedVault.fromMasterKey crates master
  | unlock passphrase salt memoryKib iterations =>
    BoxedVault.unlock crates passphrase salt memoryKib iterations

def Start.value : Start → AegisResult AegisVault
  | fromMasterKey master => AegisVault.fromMasterKey crates master
  | unlock passphrase salt memoryKib iterations =>
    AegisVault.unlock crates passphrase salt memoryKib iterations

theorem Start.computes {ledger : Heap.Ledger} {borrowed : List (Block × List UInt8)}
    (start : Start) :
    Heap.Computes ledger borrowed (start.boxed crates : Method (Heap platform) _ _)
      (start.value crates) BoxedVault.Rep := by
  cases start with
  | fromMasterKey master => exact BoxedVault.fromMasterKey_computes crates master
  | unlock passphrase salt memoryKib iterations =>
    exact BoxedVault.unlock_computes crates passphrase salt memoryKib iterations

namespace BoxedVault

def keys (boxed : BoxedVault) : List BoxedKey :=
  [boxed.master, boxed.hierarchy.kEnc, boxed.hierarchy.kAuth, boxed.hierarchy.kMeta,
    boxed.hierarchy.kShard, boxed.hierarchy.kXts, boxed.hierarchy.kHandle]

theorem entries_fst (boxed : BoxedVault) (vault : AegisVault) :
    (boxed.entries vault).map Prod.fst = boxed.keys.map BoxedKey.data := rfl

def drop (boxed : BoxedVault) (heap : Heap platform) : Heap platform :=
  boxed.hierarchy.drop (boxed.master.drop heap)

end BoxedVault

namespace Process

def callStep (process : Process platform) : LocalOp → Option (Process platform)
  | .sealSlots passphrase draws => (sealSlots crates passphrase draws).after process
  | .addSlot passphrase draws => (addSlot crates passphrase draws).after process
  | .revokeSlot idx => (revokeSlot idx).after process
  | .rotateMaster fresh => (rotateMaster crates fresh).after process

def step (process : Process platform) : VaultOp → Option (Process platform)
  | .call op => process.callStep crates op
  | .openFromSlots tableBytes headerSalt passphrase =>
    (openFromSlots crates tableBytes headerSalt passphrase).after process

section
variable {ledger : Heap.Ledger} {mine rest : List (Block × List UInt8)}
  {process : Process platform} {vault : AegisVault}

theorem Faithful.after {α : Type} {impl : Method (Process platform) AegisError α}
    {spec : Method AegisVault AegisError α} (faithful : Faithful ledger mine rest impl spec)
    (mirrors : Mirrors ledger mine rest process vault) :
    Option.Rel (Mirrors ledger mine rest) (impl.after process) (spec.after vault) := by
  have ended := faithful process vault mirrors
  unfold Method.after
  generalize impl process = one at ended
  generalize spec vault = two at ended
  cases ended with
  | ok after => exact .some after.2
  | err after => exact .some after
  | panic _ => exact .none

theorem callStep_refines (op : LocalOp) (mirrors : Mirrors ledger [] rest process vault) :
    Option.Rel (Mirrors ledger [] rest) (process.callStep crates op) (op.step crates vault) := by
  cases op with
  | sealSlots passphrase draws => exact (sealSlots_faithful crates passphrase draws).after mirrors
  | addSlot passphrase draws => exact (addSlot_faithful crates passphrase draws).after mirrors
  | revokeSlot idx => exact (revokeSlot_faithful idx).after mirrors
  | rotateMaster fresh => exact (rotateMaster_faithful crates fresh).after mirrors

theorem step_refines (op : VaultOp)
    (spills : ∀ tableBytes headerSalt passphrase,
      op = .openFromSlots tableBytes headerSalt passphrase → ∀ plaintext,
      Shown crates tableBytes headerSalt passphrase plaintext → ledger.allowed plaintext)
    (mirrors : Mirrors ledger [] rest process vault) :
    Option.Rel (Mirrors ledger [] rest) (process.step crates op) (op.step crates vault) := by
  cases op with
  | call op => exact callStep_refines crates op mirrors
  | openFromSlots tableBytes headerSalt passphrase =>
    have shown := spills tableBytes headerSalt passphrase rfl
    exact (openFromSlots_faithful crates shown).after mirrors

theorem Mirrors.dropped_vault (mirrors : Mirrors ledger [] rest process vault) :
    Heap.Holds ledger (process.vault.drop process.heap) rest :=
  BoxedHierarchy.drop_holds (BoxedKey.drop_holds mirrors.holds)

theorem Mirrors.domain_live (mirrors : Mirrors ledger mine rest process vault) (d : Domain) :
    inHeap (process.vault.hierarchy.domain d).exposed process =
    (.ok (vault.domain d).expose, process) := by
  have live : (process.vault.hierarchy.domain d).entry (vault.domain d) ∈
      mine ++ (process.vault.entries vault ++ rest) := by
    apply List.mem_append_right
    exact List.mem_append_left _ (List.mem_cons_of_mem _ (BoxedHierarchy.domain_entry _ _ d))
  exact Prod.ext (congrArg Outcome.ok (BoxedKey.expose_eq mirrors.holds live)) rfl

theorem Mirrors.encrypt_eq (mirrors : Mirrors ledger mine rest process vault) (d : Domain)
    (plaintext aad : List UInt8) (algo : AeadAlgo) (fill : OsFill) :
    encrypt crates d plaintext aad algo fill process =
    (vault.encrypt crates d plaintext aad algo fill, process) := by
  rw [encrypt, Method.self_bind, Method.bind_of_ok _ _ (mirrors.domain_live d), ← Method.lift_bind]
  rfl

theorem Mirrors.decrypt_eq (mirrors : Mirrors ledger mine rest process vault) (d : Domain)
    (nonce ciphertext aad : List UInt8) (algo : AeadAlgo) :
    decrypt crates d nonce ciphertext aad algo process =
    (vault.decrypt crates d nonce ciphertext aad algo, process) := by
  rw [decrypt, Method.self_bind, Method.bind_of_ok _ _ (mirrors.domain_live d), ← Method.lift_bind]
  rfl

theorem Mirrors.verifyVolume_eq (mirrors : Mirrors ledger mine rest process vault) :
    verifyVolume crates process = (vault.verifyVolume crates, process) := by
  rw [verifyVolume, Method.self_bind, mirrors.slots, AegisVault.verifyVolume]
  cases vault.slots with
  | none => rfl
  | some table =>
    change (copyMaster >>= fun raw => Pure.pure (volumeVerifier crates raw == table.verifier) :
      Method (Process platform) AegisError Bool) process = _
    rw [Method.bind_apply, copyMaster_eq mirrors]
    cases (U8Array.copyFromSlice MASTER_LEN vault.master.expose : AegisResult _) with
    | ok raw => rfl
    | err error => rfl
    | panic => rfl

end

/-- What a table opened in the run reveals under the passphrase it was opened with. -/
def Spilled (ops : List VaultOp) (plaintext : List UInt8) : Prop :=
  ∃ tableBytes headerSalt passphrase, VaultOp.openFromSlots tableBytes headerSalt passphrase ∈ ops ∧
    Shown crates tableBytes headerSalt passphrase plaintext

/-- What can be seen of a vault in memory behind a run: its keys, what its calls answer, which
boxes are in use, those of `heap` belonging to others, and what was given back. -/
structure Agrees (ops : List VaultOp) (heap : Heap platform) (process : Process platform)
    (vault : AegisVault) : Prop where
  slots : process.vault.slots = vault.slots
  master : process.vault.master.expose process.heap = vault.master.expose
  domain : ∀ d, (process.vault.hierarchy.domain d).expose process.heap = (vault.domain d).expose
  encrypt : ∀ d plaintext aad algo fill,
    encrypt crates d plaintext aad algo fill process =
      (vault.encrypt crates d plaintext aad algo fill, process)
  decrypt : ∀ d nonce ciphertext aad algo,
    decrypt crates d nonce ciphertext aad algo process =
      (vault.decrypt crates d nonce ciphertext aad algo, process)
  verifyVolume : verifyVolume crates process = (vault.verifyVolume crates, process)
  sealSlots : ∀ passphrase draws,
    (sealSlots crates passphrase draws process).1 =
      (AegisVault.sealSlots crates passphrase draws vault).1
  addSlot : ∀ passphrase draws,
    (addSlot crates passphrase draws process).1 =
      (AegisVault.addSlot crates passphrase draws vault).1
  revokeSlot : ∀ idx, (revokeSlot idx process).1 = (AegisVault.revokeSlot idx vault).1
  openFromSlots : ∀ tableBytes headerSalt passphrase,
    (openFromSlots crates tableBytes headerSalt passphrase process).1 =
    (AegisVault.openFromSlots crates tableBytes headerSalt passphrase vault).1
  rotateMaster : ∀ fresh,
    (rotateMaster crates fresh process).1 = (AegisVault.rotateMaster crates fresh vault).1
  taken : process.heap.taken.Perm (process.vault.keys.map BoxedKey.data ++ heap.taken)
  others : ∀ block ∈ heap.taken, load process.heap.cells block = load heap.cells block
  returned : ∃ gone, process.heap.freed = gone ++ heap.freed ∧
    ∀ entry ∈ gone, (∀ byte ∈ entry.2, byte = 0) ∨ Spilled crates ops entry.2

theorem Mirrors.agrees {ops : List VaultOp} {heap : Heap platform} {process : Process platform}
    {vault : AegisVault}
    (mirrors : Mirrors ⟨heap.freed, Spilled crates ops⟩ [] heap.blocks process vault) :
    Agrees crates ops heap process vault where
  slots := mirrors.slots
  master := BoxedKey.expose_eq mirrors.holds List.mem_cons_self
  domain d := Outcome.ok.inj (congrArg Prod.fst (mirrors.domain_live d))
  encrypt := mirrors.encrypt_eq crates
  decrypt := mirrors.decrypt_eq crates
  verifyVolume := mirrors.verifyVolume_eq crates
  sealSlots passphrase draws := (sealSlots_faithful crates passphrase draws).answers mirrors
  addSlot passphrase draws := (addSlot_faithful crates passphrase draws).answers mirrors
  revokeSlot idx := (revokeSlot_faithful idx).answers mirrors
  openFromSlots tableBytes headerSalt passphrase := by
    have loose : Mirrors ⟨heap.freed, fun _ => True⟩ [] heap.blocks process vault :=
      ⟨mirrors.slots, mirrors.holds.weaken fun _ _ => trivial⟩
    exact (openFromSlots_faithful crates fun _ _ => trivial).answers loose
  rotateMaster fresh := (rotateMaster_faithful crates fresh).answers mirrors
  taken := by
    have taken := mirrors.holds.taken
    rw [List.nil_append, List.map_append, BoxedVault.entries_fst, heap.blocks_fst] at taken
    exact taken
  others block member := mirrors.holds.load_eq
    (List.mem_append_right _ (List.mem_append_right _ (List.mem_map_of_mem member)))
  returned := mirrors.holds.returned

/-- No box has been taken or given back for good, those in use hold what they held, and those
given back held zeros. -/
def Restored (heap after : Heap platform) : Prop := after.taken.Perm heap.taken ∧
  (∀ block ∈ heap.taken, load after.cells block = load heap.cells block) ∧ Wiped heap after

theorem restored_of_holds {heap after : Heap platform}
    (holds : Heap.Holds ⟨heap.freed, fun _ => False⟩ after heap.blocks) : Restored heap after := by
  refine ⟨?_, fun block member => holds.load_eq (List.mem_map_of_mem member),
    wiped_of_admits holds.returned⟩
  have taken := holds.taken
  rw [heap.blocks_fst] at taken
  exact taken

/-- A vault made and used in memory, next to whatever else is there, does what it does as a
value: it is made when the value is and fails or panics as the value does, and behind any
calls, tables of any origin opened among them, it agrees with the value. -/
theorem vault_faithful (heap : Heap platform) (start : Start) (ops : List VaultOp) :
    EndAlike (fun boxed vault after _ =>
      Option.Rel (Agrees crates ops heap) (run (step crates) ⟨after, boxed⟩ ops)
        (run (VaultOp.step crates) vault ops))
      (fun after _ => Restored heap after) (start.boxed crates heap) (start.value crates, ()) := by
  have ended := (start.computes crates) heap.blocks (List.nil_subset _) heap ()
    (Heap.Holds.start heap fun _ => False)
  refine ended.imp ?_ fun _ _ holds => restored_of_holds holds
  intro boxed vault after _ ⟨mine, ⟨slots, owned⟩, holds⟩
  subst owned
  have initial : Mirrors ⟨heap.freed, Spilled crates ops⟩ [] heap.blocks ⟨after, boxed⟩ vault :=
    ⟨slots, holds.weaken fun _ => False.elim⟩
  have steps : ∀ op ∈ ops, ∀ (process : Process platform) vault,
      Mirrors ⟨heap.freed, Spilled crates ops⟩ [] heap.blocks process vault →
      Option.Rel (Mirrors ⟨heap.freed, Spilled crates ops⟩ [] heap.blocks)
        (process.step crates op) (op.step crates vault) := by
    intro op member process vault
    apply step_refines
    intro tableBytes headerSalt passphrase opens plaintext shown
    exact ⟨tableBytes, headerSalt, passphrase, opens ▸ member, shown⟩
  have related := run_refines ops steps initial
  generalize run (step crates) ⟨after, boxed⟩ ops = one at related
  generalize run (VaultOp.step crates) vault ops = two at related
  cases related with
  | none => exact .none
  | some mirrors => exact .some (mirrors.agrees crates)

/-- While no table is opened, every box given back held zeros; and once the vault is dropped, its
boxes have all gone back, and so have held zeros then. -/
theorem vault_clean (heap : Heap platform) (start : Start) (ops : List LocalOp) {boxed : BoxedVault}
    {after : Heap platform}
    (made : start.boxed crates heap = (.ok boxed, after)) {process : Process platform}
    (ran : run (callStep crates) ⟨after, boxed⟩ ops = some process) :
    Wiped heap process.heap ∧ Restored heap (process.vault.drop process.heap) := by
  have began := (start.computes crates) heap.blocks (List.nil_subset _) heap ()
    (Heap.Holds.start heap fun _ => False)
  rw [made, Method.lift_apply] at began
  generalize start.value crates = value at began
  cases began with
  | ok related =>
    obtain ⟨mine, ⟨slots, owned⟩, holds⟩ := related
    subst owned
    have initial : Mirrors _ [] heap.blocks ⟨after, boxed⟩ _ := ⟨slots, holds⟩
    have related := run_refines ops (fun op _ _ _ => callStep_refines crates op) initial
    rw [ran] at related
    obtain ⟨vault, _, mirrors⟩ := exists_of_rel related
    exact ⟨wiped_of_admits mirrors.holds.returned, restored_of_holds mirrors.dropped_vault⟩

theorem vault_clean_rotated : ∃ boxed after process,
    (Start.unlock (ascii "alice") (ascii "aegis-cli-salt-v1") 64 2).boxed checksumCrates
      Heap.empty = (.ok boxed, after) ∧
    run (callStep checksumCrates) ⟨after, boxed⟩ [.sealSlots (ascii "alice") TableDraws.blank,
      .rotateMaster (U8Array.zeros 32)] = some process ∧
      Restored Heap.empty (process.vault.drop process.heap) := by
  let started := (Start.unlock (ascii "alice") (ascii "aegis-cli-salt-v1") 64 2).boxed
    checksumCrates Heap.empty
  have returned : started.1.toOption.any
    (fun boxed => (run (callStep checksumCrates) ⟨started.2, boxed⟩
      [.sealSlots (ascii "alice") TableDraws.blank, .rotateMaster (U8Array.zeros 32)]).isSome) =
        true := by
    decide +kernel
  obtain ⟨boxed, answered, runs⟩ := Outcome.ok_of_any returned
  obtain ⟨process, ran⟩ := Option.isSome_iff_exists.mp runs
  have made : (Start.unlock (ascii "alice") (ascii "aegis-cli-salt-v1") 64 2).boxed
    checksumCrates Heap.empty =
      (.ok boxed, started.2) := Method.eq_of_fst _ answered
  exact ⟨boxed, started.2, process, made, ran,
    (vault_clean checksumCrates Heap.empty _ _ made ran).2⟩

end Process
end SoteriaAegis.Memory
