import SoteriaAegis.Memory.Derivation
import SoteriaAegis.Vault.Coherence

/-! A live vault in the memory of its process: a master key, six domain keys and the table. Its
calls do on the heap what they do on values, and leave no other key there. -/

namespace SoteriaAegis.Memory
open Rust Crypto Slots Vault

variable {platform : Platform} {α β γ δ : Type}

structure BoxedVault where
  master : BoxedKey
  hierarchy : BoxedHierarchy
  slots : Option KeySlotTable
  deriving DecidableEq

namespace BoxedVault

def entries (boxed : BoxedVault) (vault : AegisVault) : List (Block × List UInt8) :=
  boxed.master.entry vault.master :: boxed.hierarchy.entries vault.hierarchy

def Rep (boxed : BoxedVault) (vault : AegisVault) (mine : List (Block × List UInt8)) : Prop :=
  boxed.slots = vault.slots ∧ mine = boxed.entries vault

variable (crates : Crates)

def fromMasterKey (master : U8Array MASTER_LEN) : Method (Heap platform) AegisError BoxedVault := do
  let masterKey ← BoxedKey.new32 master
  Method.onFailure (do
    let hierarchy ← Method.expect
      (BoxedHierarchy.fromMaster crates master.val : Method (Heap platform) AegisError _)
    return { master := masterKey, hierarchy := hierarchy, slots := none }) masterKey.drop

/-- The derived master is a local variable: the vault gets a key of its own. -/
def unlock (passphrase salt : List UInt8) (memoryKib iterations : UInt32) :
    Method (Heap platform) AegisError BoxedVault := do
  let master ← argon2idRoot crates passphrase salt memoryKib iterations
  Method.ensuring (do
    let exposed ← master.exposed
    let raw ← Method.lift (U8Array.copyFromSlice MASTER_LEN exposed)
    fromMasterKey crates raw) master.drop

theorem fromMasterKey_computes {ledger : Heap.Ledger} {borrowed : List (Block × List UInt8)}
    (master : U8Array MASTER_LEN) :
    Heap.Computes ledger borrowed (fromMasterKey crates master : Method (Heap platform) _ _)
      (AegisVault.fromMasterKey crates master) Rep := by
  have made : Heap.Computes ledger borrowed
    (BoxedKey.new32 master : Method (Heap platform) AegisError _)
      (.ok (AegisKey.new32 master)) BoxedKey.Rep := BoxedKey.new_computes master.val
  change Heap.Computes _ _ _ (Outcome.ok (AegisKey.new32 master) >>= fun key =>
    Outcome.expect (KeyHierarchy.fromMaster crates master.val) >>= fun hierarchy =>
      .ok (AegisVault.mk key hierarchy none)) _
  refine BoxedKey.guarded made ?_
  intro masterKey key same
  apply Heap.Computes.bind (BoxedHierarchy.fromMaster_computes crates master.val).expect
  intro boxed hierarchy mine rest _ owned _
  apply Method.Refines.pure
  intro heap _ holds
  subst owned
  exact ⟨boxed.entries hierarchy, ⟨rfl, rfl⟩, holds⟩

theorem unlock_computes {ledger : Heap.Ledger} {borrowed : List (Block × List UInt8)}
    (passphrase salt : List UInt8) (memoryKib iterations : UInt32) :
    Heap.Computes ledger borrowed
      (unlock crates passphrase salt memoryKib iterations : Method (Heap platform) _ _)
      (AegisVault.unlock crates passphrase salt memoryKib iterations) Rep := by
  apply BoxedKey.in_scope (argon2idRoot_computes crates passphrase salt memoryKib iterations)
  intro master key _
  apply BoxedKey.exposed_bind List.mem_cons_self
  apply Heap.Computes.lift_bind
  intro raw _
  exact fromMasterKey_computes crates raw

end BoxedVault

structure Process (platform : Platform) where
  heap : Heap platform
  vault : BoxedVault

namespace Process

def inHeap (call : Method (Heap platform) AegisError α) : Method (Process platform) AegisError α :=
  fun process =>
  ((call process.heap).1, { process with heap := (call process.heap).2 })

def onHeap (change : Heap platform → Heap platform) (process : Process platform) :
    Process platform :=
  { process with heap := change process.heap }

/-- A field of the vault is assigned: the value that was there is dropped. -/
def setMaster (master : BoxedKey) (process : Process platform) : Process platform :=
  { heap := process.vault.master.drop process.heap,
    vault := { process.vault with master := master } }

def setHierarchy (hierarchy : BoxedHierarchy) (process : Process platform) : Process platform :=
  { heap := process.vault.hierarchy.drop process.heap,
    vault := { process.vault with hierarchy := hierarchy } }

def setSlots (slots : Option KeySlotTable) (process : Process platform) : Process platform :=
  { process with vault := { process.vault with slots := slots } }

variable (crates : Crates)

def copyMaster : Method (Process platform) AegisError (U8Array MASTER_LEN) := do
  let process ← Method.self
  let exposed ← inHeap process.vault.master.exposed
  Method.lift (U8Array.copyFromSlice MASTER_LEN exposed)

def encrypt (domain : Domain) (plaintext aad : List UInt8) (algo : AeadAlgo) (fill : OsFill) :
    Method (Process platform) AegisError (List UInt8 × List UInt8) := do
  let process ← Method.self
  let exposed ← inHeap (process.vault.hierarchy.domain domain).exposed
  let raw ← Method.lift (U8Array.copyFromSlice 32 exposed)
  Method.lift ((AeadCipher.new algo raw).aeadSeal crates fill plaintext aad)

def decrypt (domain : Domain) (nonce ciphertext aad : List UInt8) (algo : AeadAlgo) :
    Method (Process platform) AegisError (List UInt8) := do
  let process ← Method.self
  let exposed ← inHeap (process.vault.hierarchy.domain domain).exposed
  let raw ← Method.lift (U8Array.copyFromSlice 32 exposed)
  Method.lift ((AeadCipher.new algo raw).aeadOpen crates nonce ciphertext aad)

def sealSlots (passphrase : List UInt8) (draws : TableDraws) :
    Method (Process platform) AegisError Unit := do
  let raw ← copyMaster
  let table ← inHeap (newInitial crates raw passphrase draws)
  Method.update (setSlots (some table))

def pushSlot (table : KeySlotTable) (master : U8Array MASTER_LEN) (passphrase : List UInt8)
    (draws : SlotDraws) :
    Method (Process platform) AegisError Nat :=
  if MAX_SLOTS ≤ table.slots.length then Method.fail (.slotTableFull MAX_SLOTS)
  else do
    let slot ← inHeap (createSlot crates master passphrase 64 3 draws)
    Method.update (setSlots (some { table with slots := table.slots ++ [slot] }))
    return (table.slots ++ [slot]).length - 1

def addSlot (passphrase : List UInt8) (draws : TableDraws) :
    Method (Process platform) AegisError Nat := do
  let raw ← copyMaster
  let process ← Method.self
  match process.vault.slots with
  | some table => pushSlot crates table raw passphrase draws.slot
  | none => do
    sealSlots crates passphrase draws
    return 0

def onTable (table : KeySlotTable) (call : Method KeySlotTable AegisError α) :
    Method (Process platform) AegisError α :=
  fun process => ((call table).1, setSlots (some (call table).2) process)

def revokeSlot (idx : Nat) : Method (Process platform) AegisError Unit := do
  let process ← Method.self
  match process.vault.slots with
  | some table => onTable table (KeySlotTable.revokeSlot idx)
  | none => Method.fail .lastSlotRevocation

/-- The key that the slot yields is dropped at the end, also when it is refused. -/
def openFromSlots (tableBytes : List UInt8) (headerSalt : U8Array 32) (passphrase : List UInt8) :
    Method (Process platform) AegisError Unit := do
  let table ← Method.lift (KeySlotTable.fromBytes crates tableBytes headerSalt)
  let (_, master) ← inHeap (unsealWith crates table passphrase)
  Method.ensuring (do
    let exposed ← inHeap master.exposed
    let raw ← Method.lift (U8Array.copyFromSlice MASTER_LEN exposed)
    let expected := volumeVerifier crates raw
    if expected ≠ table.verifier then Method.fail .volumeMismatch
    else
      let masterKey ← inHeap (BoxedKey.new32 raw)
      Method.update (setMaster masterKey)
      let hierarchy ← inHeap (BoxedHierarchy.fromMaster crates raw.val)
      Method.update (setHierarchy hierarchy)
      Method.update (setSlots (some table))) (onHeap master.drop)

/-- The new key is dropped if it does not fit the buffer, and moved into the vault otherwise. -/
def rotateMaster (fresh : U8Array MASTER_LEN) : Method (Process platform) AegisError Unit := do
  let newMaster ← inHeap (BoxedKey.new32 fresh)
  let raw ← Method.onFailure (do
    let exposed ← inHeap newMaster.exposed
    Method.lift (U8Array.copyFromSlice MASTER_LEN exposed)) (onHeap newMaster.drop)
  Method.update (setMaster newMaster)
  let hierarchy ← inHeap (Method.expect
    (BoxedHierarchy.fromMaster crates raw.val : Method (Heap platform) AegisError _))
  Method.update (setHierarchy hierarchy)
  Method.update (setSlots none)

def verifyVolume : Method (Process platform) AegisError Bool := do
  let process ← Method.self
  match process.vault.slots with
  | some table => do
    let raw ← copyMaster
    return volumeVerifier crates raw == table.verifier
  | none => return false

/-- The heap holds the keys of the vault, next to those of local variables and the blocks of others. -/
structure Mirrors (ledger : Heap.Ledger) (mine rest : List (Block × List UInt8))
    (process : Process platform) (vault : AegisVault) : Prop where
  slots : process.vault.slots = vault.slots
  holds : Heap.Holds ledger process.heap (mine ++ (process.vault.entries vault ++ rest))

section
variable {ledger : Heap.Ledger} {mine rest : List (Block × List UInt8)}
  {process : Process platform}
  {vault : AegisVault} {post : α → β → Process platform → AegisVault → Prop}
  {fail : Process platform → AegisVault → Prop}

theorem Mirrors.dropped {boxed : BoxedKey} {key : AegisKey}
    (mirrors : Mirrors ledger (boxed.entry key :: mine) rest process vault) :
    Mirrors ledger mine rest (process.onHeap boxed.drop) vault :=
  ⟨mirrors.slots, BoxedKey.drop_holds mirrors.holds⟩

theorem Mirrors.setMaster {boxed : BoxedKey} {key : AegisKey}
    (mirrors : Mirrors ledger (boxed.entry key :: mine) rest process vault) :
    Mirrors ledger mine rest (process.setMaster boxed) { vault with master := key } where
  slots := mirrors.slots
  holds := BoxedKey.drop_holds
    (mirrors.holds.perm (List.perm_middle.trans (List.perm_middle.symm.cons _)))

theorem Mirrors.setHierarchy {boxed : BoxedHierarchy} {hierarchy : KeyHierarchy}
    (mirrors : Mirrors ledger (boxed.entries hierarchy ++ mine) rest process vault) :
    Mirrors ledger mine rest (process.setHierarchy boxed)
      { vault with hierarchy := hierarchy } where
  slots := mirrors.slots
  holds := by
    have exchanged : (boxed.entries hierarchy ++ mine ++ (process.vault.entries vault ++ rest)).Perm
        (process.vault.hierarchy.entries vault.hierarchy ++
          (mine ++ (process.vault.master.entry vault.master :: boxed.entries hierarchy ++
            rest))) := by
      apply List.perm_iff_count.mpr
      intro entry
      simp only [BoxedVault.entries, List.count_append, List.count_cons]
      omega
    exact BoxedHierarchy.drop_holds (mirrors.holds.perm exchanged)

theorem Mirrors.setSlots (mirrors : Mirrors ledger mine rest process vault)
    (slots : Option KeySlotTable) :
    Mirrors ledger mine rest (process.setSlots slots) { vault with slots := slots } :=
    ⟨rfl, mirrors.holds⟩

def Faithful (ledger : Heap.Ledger) (mine rest : List (Block × List UInt8))
    (impl : Method (Process platform) AegisError α)
    (spec : Method AegisVault AegisError α) : Prop :=
  impl.Refines spec (Mirrors ledger mine rest) (fun one other process vault => one = other ∧
    Mirrors ledger mine rest process vault) (Mirrors ledger mine rest)

section
variable {impl : Method (Process platform) AegisError α} {spec : Method AegisVault AegisError α}
  {boxed : BoxedKey}

theorem Faithful.answers (faithful : Faithful ledger mine rest impl spec)
    (mirrors : Mirrors ledger mine rest process vault) :
    (impl process).1 = (spec vault).1 := by
  have ended := faithful process vault mirrors
  generalize impl process = one at ended
  generalize spec vault = two at ended
  cases ended with
  | ok related => exact congrArg Outcome.ok related.1
  | err _ => rfl
  | panic _ => rfl

theorem Faithful.in_scope (key : AegisKey)
    (faithful : Faithful ledger (boxed.entry key :: mine) rest impl spec) :
    (impl.ensuring (onHeap boxed.drop)).Refines spec
      (Mirrors ledger (boxed.entry key :: mine) rest)
      (fun one other process vault => one = other ∧ Mirrors ledger mine rest process vault)
      (Mirrors ledger mine rest) := by
  refine Method.Refines.ensuring faithful ?_ fun _ _ mirrors => mirrors.dropped
  intro _ _ process vault ⟨same, mirrors⟩
  exact ⟨same, mirrors.dropped⟩

theorem Faithful.guarded {key : AegisKey}
    (faithful : Faithful ledger (boxed.entry key :: mine) rest impl spec) :
    (impl.onFailure (onHeap boxed.drop)).Refines spec
      (Mirrors ledger (boxed.entry key :: mine) rest)
      (fun one other process vault => one = other ∧
        Mirrors ledger (boxed.entry key :: mine) rest process vault)
      (Mirrors ledger mine rest) := Method.Refines.onFailure faithful fun _ _ mirrors =>
      mirrors.dropped

end

theorem inHeap_bind {rep : γ → δ → List (Block × List UInt8) → Prop}
    {call : Method (Heap platform) AegisError γ}
    {value : Outcome AegisError δ} {next : γ → Method (Process platform) AegisError α}
    {next' : δ → Method AegisVault AegisError β}
    (computes : Heap.Computes ledger [] call value rep)
    (others : ∀ one other mine', value = .ok other → rep one other mine' →
      (next one).Refines (next' other)
      (Mirrors ledger (mine' ++ mine) rest) post (Mirrors ledger mine rest)) :
    (inHeap call >>= next).Refines (Method.lift value >>= next') (Mirrors ledger mine rest) post
      (Mirrors ledger mine rest) := by
  intro process vault mirrors
  have ended := computes.returns (List.nil_subset _) process.heap () mirrors.holds
  rw [Method.bind_apply, Method.bind_apply, Method.lift_apply]
  unfold inHeap
  rw [Method.lift_apply] at ended
  generalize call process.heap = one at ended
  cases ended with
  | ok after =>
    obtain ⟨same, mine', related, holds⟩ := after
    exact others _ _ mine' same related _ _ ⟨mirrors.slots, by rw [List.append_assoc]; exact holds⟩
  | err after => exact .err ⟨mirrors.slots, after⟩
  | panic after => exact .panic ⟨mirrors.slots, after⟩

theorem exposed_bind {boxed : BoxedKey} {key : AegisKey}
    {next : List UInt8 → Method (Process platform) AegisError α}
    {spec : Method AegisVault AegisError β} (others : (next key.expose).Refines spec
      (Mirrors ledger (boxed.entry key :: mine) rest) post fail) :
    (inHeap boxed.exposed >>= next).Refines spec (Mirrors ledger (boxed.entry key :: mine) rest)
    post fail := by
  intro process vault mirrors
  have found : inHeap boxed.exposed process = (.ok key.expose, process) :=
    Prod.ext (congrArg Outcome.ok (BoxedKey.expose_eq mirrors.holds List.mem_cons_self)) rfl
  rw [Method.bind_of_ok _ _ found]
  exact others process vault mirrors

theorem new32_bind {raw : U8Array 32} {next : BoxedKey → Method (Process platform) AegisError α}
    {spec : Method AegisVault AegisError β} (others : ∀ boxed, (next boxed).Refines spec
      (Mirrors ledger (boxed.entry (AegisKey.new32 raw) :: mine) rest) post
      (Mirrors ledger mine rest)) :
    (inHeap (BoxedKey.new32 raw) >>= next).Refines spec (Mirrors ledger mine rest) post
    (Mirrors ledger mine rest) := by
  have made : Heap.Computes ledger [] (BoxedKey.new32 raw : Method (Heap platform) AegisError _)
      (.ok (AegisKey.new32 raw)) BoxedKey.Rep := BoxedKey.new_computes raw.val
  change Method.Refines _ (Method.lift (Outcome.ok (AegisKey.new32 raw)) >>= fun _ => spec) _ _ _
  refine inHeap_bind made ?_
  intro boxed key mine' same owned
  cases same
  subst owned
  exact others boxed

theorem copyMaster_eq (mirrors : Mirrors ledger mine rest process vault) :
    copyMaster process = (U8Array.copyFromSlice MASTER_LEN vault.master.expose, process) := by
  have live : process.vault.master.entry vault.master ∈
    mine ++ (process.vault.entries vault ++ rest) := by
    simp [BoxedVault.entries]
  have found : inHeap process.vault.master.exposed process = (.ok vault.master.expose, process) :=
    Prod.ext (congrArg Outcome.ok (BoxedKey.expose_eq mirrors.holds live)) rfl
  rw [copyMaster, Method.self_bind, Method.bind_of_ok _ _ found]
  rfl

theorem copyMaster_bind {next : U8Array MASTER_LEN → Method (Process platform) AegisError α}
    {next' : AegisVault → U8Array MASTER_LEN → Method AegisVault AegisError β}
    (others : ∀ kept raw, (next raw).Refines (next' kept raw)
      (fun process vault => vault = kept ∧ Mirrors ledger mine rest process vault) post
      (Mirrors ledger mine rest)) :
    (copyMaster >>= next).Refines
      (Method.self >>= fun kept =>
        Method.lift (U8Array.copyFromSlice MASTER_LEN kept.master.expose) >>= next' kept)
      (Mirrors ledger mine rest) post (Mirrors ledger mine rest) := by
  intro process vault mirrors
  rw [Method.bind_apply, copyMaster_eq mirrors, Method.self_bind, Method.bind_apply,
    Method.lift_apply]
  cases (U8Array.copyFromSlice MASTER_LEN vault.master.expose : Outcome AegisError _) with
  | ok raw => exact others vault raw process vault ⟨rfl, mirrors⟩
  | err error => exact .err mirrors
  | panic => exact .panic mirrors

theorem setSlots_faithful (slots : Option KeySlotTable) :
    Faithful ledger mine rest
      (Method.update (Process.setSlots slots) : Method (Process platform) _ _)
      (Method.update fun vault => { vault with slots := slots }) :=
  Method.Refines.update fun _ _ mirrors => ⟨rfl, mirrors.setSlots slots⟩

theorem sealSlots_faithful (passphrase : List UInt8) (draws : TableDraws) :
    Faithful ledger mine rest (sealSlots crates passphrase draws : Method (Process platform) _ _)
      (AegisVault.sealSlots crates passphrase draws) := by
  apply copyMaster_bind
  intro kept raw
  apply Method.Refines.imp (inHeap_bind (newInitial_computes crates raw passphrase draws) ?_)
    (fun _ _ known => known.2)
    (fun _ _ _ _ kept => kept) fun _ _ kept => kept
  intro table table' mine' _ plain
  obtain ⟨rfl, rfl⟩ := plain
  exact setSlots_faithful (some table)

theorem onTable_addSlot {table : KeySlotTable} (held : vault.slots = some table)
    (room : ¬MAX_SLOTS ≤ table.slots.length)
    (raw : U8Array MASTER_LEN) (passphrase : List UInt8) (draws : SlotDraws) :
    AegisVault.onTable table (KeySlotTable.addSlot crates raw passphrase draws) vault =
      (Method.lift (KeySlot.create crates raw passphrase 64 3 draws) >>= fun slot =>
        Method.update (fun vault =>
          { vault with slots := some { table with slots := table.slots ++ [slot] } }) >>= fun _ =>
          (return (table.slots ++ [slot]).length - 1 : Method AegisVault AegisError Nat))
            vault := by
  have same : { vault with slots := some table } = vault := by rw [← held]
  unfold AegisVault.onTable
  rw [KeySlotTable.addSlot_eq, if_neg room, Method.bind_apply, Method.lift_apply]
  cases KeySlot.create crates raw passphrase 64 3 draws with
  | ok slot =>
    have count : (table.slots ++ [slot]).length - 1 = table.slots.length := by
      rw [List.length_append, List.length_singleton, Nat.add_sub_cancel]
    exact congrArg (fun idx => (Outcome.ok idx, { vault with
      slots := some { table with slots := table.slots ++ [slot] } })) count.symm
  | err error => exact congrArg (Prod.mk _) same
  | panic => exact congrArg (Prod.mk _) same

theorem pushSlot_ends {table : KeySlotTable} (held : vault.slots = some table)
    (raw : U8Array MASTER_LEN) (passphrase : List UInt8) (draws : SlotDraws)
    (mirrors : Mirrors ledger mine rest process vault) :
    EndAlike (fun one other process vault => one = other ∧ Mirrors ledger mine rest process vault)
      (Mirrors ledger mine rest) (pushSlot crates table raw passphrase draws process)
      (AegisVault.onTable table (KeySlotTable.addSlot crates raw passphrase draws) vault) := by
  unfold pushSlot
  by_cases full : MAX_SLOTS ≤ table.slots.length
  · have refused : KeySlotTable.addSlot crates raw passphrase draws table =
      (.err (.slotTableFull MAX_SLOTS), table) := by
      rw [KeySlotTable.addSlot_eq, if_pos full]
    rw [if_pos full, AegisVault.onTable, refused, ← held]
    exact .err mirrors
  · rw [if_neg full, onTable_addSlot crates held full]
    refine inHeap_bind (createSlot_computes crates raw passphrase 64 3 draws) ?_ process
      vault mirrors
    intro slot slot' mine' _ plain
    obtain ⟨rfl, rfl⟩ := plain
    apply (setSlots_faithful _).bind
    intro _ _
    exact Method.Refines.pure fun _ _ after => ⟨rfl, after.2⟩

theorem addSlot_faithful (passphrase : List UInt8) (draws : TableDraws) :
    Faithful ledger mine rest (addSlot crates passphrase draws : Method (Process platform) _ _)
      (AegisVault.addSlot crates passphrase draws) := by
  apply copyMaster_bind
  intro kept raw process vault ⟨same, mirrors⟩
  subst same
  rw [Method.self_bind, mirrors.slots]
  cases held : vault.slots with
  | some table => exact pushSlot_ends crates held raw passphrase draws.slot mirrors
  | none =>
    refine Method.Refines.bind _ (sealSlots_faithful crates passphrase draws) ?_ process
      vault mirrors
    intro _ _
    exact Method.Refines.pure fun _ _ sealed => ⟨rfl, sealed.2⟩

theorem onTable_faithful (table : KeySlotTable) (call : Method KeySlotTable AegisError α) :
    Faithful ledger mine rest (onTable table call : Method (Process platform) _ _)
      (AegisVault.onTable table call) := by
  intro process vault mirrors
  have after := mirrors.setSlots (some (call table).2)
  unfold onTable AegisVault.onTable
  cases (call table).1 with
  | ok value => exact .ok ⟨rfl, after⟩
  | err error => exact .err after
  | panic => exact .panic after

theorem revokeSlot_faithful (idx : Nat) :
    Faithful ledger mine rest (revokeSlot idx : Method (Process platform) _ _)
      (AegisVault.revokeSlot idx) := by
  intro process vault mirrors
  rw [revokeSlot, AegisVault.revokeSlot, Method.self_bind, Method.self_bind, mirrors.slots]
  cases vault.slots with
  | some table => exact onTable_faithful table _ process vault mirrors
  | none => exact .err mirrors

theorem setMaster_refines {boxed : BoxedKey} {key : AegisKey}
    {post : Unit → Unit → Process platform → AegisVault → Prop}
    (related : ∀ process vault, Mirrors ledger mine rest process vault →
      post () () process vault) :
    (Method.update (Process.setMaster boxed) : Method (Process platform) AegisError Unit).Refines
      (Method.update fun vault => { vault with master := key })
      (Mirrors ledger (boxed.entry key :: mine) rest) post fail :=
  Method.Refines.update fun _ _ mirrors => related _ _ mirrors.setMaster

theorem settle_refines {hierarchy : Method (Heap platform) AegisError BoxedHierarchy}
    {derived : Outcome AegisError KeyHierarchy}
    (computes : Heap.Computes ledger [] hierarchy derived BoxedHierarchy.Rep)
    (slots : Option KeySlotTable) :
    Faithful ledger mine rest
      (inHeap hierarchy >>= fun boxed => Method.update (Process.setHierarchy boxed) >>= fun _ =>
        Method.update (Process.setSlots slots))
      (Method.lift derived >>= fun hierarchy =>
        Method.update (fun vault => { vault with hierarchy := hierarchy }) >>= fun _ =>
        Method.update fun vault => { vault with slots := slots }) := by
  apply inHeap_bind computes
  intro boxed hierarchy mine' _ owned
  subst owned
  apply Method.Refines.bind fun _ _ => Mirrors ledger mine rest
  · exact Method.Refines.update fun _ _ mirrors => mirrors.setHierarchy
  · intro _ _
    exact setSlots_faithful slots

/-- What an enabled slot of a stored table reveals under the passphrase. -/
def Shown (tableBytes : List UInt8) (headerSalt : U8Array 32) (passphrase plaintext : List UInt8) :
    Prop :=
  ∃ table slot, KeySlotTable.fromBytes crates tableBytes headerSalt = .ok table ∧
    slot ∈ table.slots ∧ slot.isEnabled = true ∧ Reveals crates slot passphrase plaintext

theorem openFromSlots_faithful {tableBytes : List UInt8} {headerSalt : U8Array 32}
    {passphrase : List UInt8}
    (spills : ∀ plaintext, Shown crates tableBytes headerSalt passphrase plaintext →
      ledger.allowed plaintext) :
    Faithful ledger mine rest (openFromSlots crates tableBytes headerSalt passphrase :
      Method (Process platform) _ _)
      (AegisVault.openFromSlots crates tableBytes headerSalt passphrase) := by
  apply Method.Refines.lift_bind fun _ _ mirrors => mirrors
  intro table parsed
  apply inHeap_bind (unsealWith_computes crates fun slot member enabled plaintext revealed =>
    spills plaintext ⟨table, slot, parsed, member, enabled, revealed⟩)
  intro (i, master) (j, key) mine' _ ⟨_, owned⟩
  cases owned
  apply Faithful.in_scope key
  apply exposed_bind
  apply Method.Refines.lift_bind fun _ _ mirrors => mirrors
  intro raw _
  apply Method.Refines.ite
  · exact Method.Refines.fails fun _ _ mirrors => mirrors
  · apply new32_bind
    intro boxed
    apply Method.Refines.bind fun _ _ => Mirrors ledger (master.entry key :: mine) rest
    · exact setMaster_refines fun _ _ mirrors => mirrors
    · intro _ _
      exact settle_refines (BoxedHierarchy.fromMaster_computes crates raw.val) (some table)

theorem rotateMaster_faithful (fresh : U8Array MASTER_LEN) :
    Faithful ledger mine rest (rotateMaster crates fresh : Method (Process platform) _ _)
      (AegisVault.rotateMaster crates fresh) := by
  apply new32_bind
  intro boxed
  apply Method.Refines.bind fun one other process vault => one = other ∧
    Mirrors ledger (boxed.entry (AegisKey.new32 fresh) :: mine) rest process vault
  · apply Faithful.guarded
    apply exposed_bind
    exact Method.Refines.lifted _
  · intro raw raw'
    apply Method.Refines.given (fun _ _ known => known.1)
    intro same
    subst same
    apply Method.Refines.bind fun _ _ => Mirrors ledger mine rest
    · exact (setMaster_refines fun _ _ mirrors => mirrors).imp (fun _ _ known => known.2)
        (fun _ _ _ _ after => after) fun _ _ after => after
    · intro _ _
      exact settle_refines (BoxedHierarchy.fromMaster_computes crates raw.val).expect none

end
end Process
end SoteriaAegis.Memory
