import SoteriaAegis.Access.Cabinet
import SoteriaAegis.Slots.Lifecycle
import SoteriaAegis.Cli.Adding
import SoteriaAegis.Cli.Sealed

/-! The program as a cabinet: what its command line asks for, and what the bytes on the disk stand
for. A disk and a cabinet that agree give the same people access to the same vaults. -/

namespace SoteriaAegis.Cli
open Rust Crypto Slots Vault Access

def given (args : Args) (key : Str) : Option Str := (args key).filter fun value => !value.isEmpty

/-- What a command with its flags asks for. -/
def request (command : Str) (args : Args) : Option (Request Str Str) :=
  if command = ascii "init" then do
    let pass ← given args (ascii "p")
    let out ← given args (ascii "o")
    return .create pass out
  else if command = ascii "add" then do
    let pass ← given args (ascii "p")
    let newp ← given args (ascii "n")
    let file ← given args (ascii "f")
    return .enroll pass newp file
  else if command = ascii "seal" then do
    let pass ← given args (ascii "p")
    let file ← given args (ascii "f")
    let inp ← given args (ascii "i")
    let outp ← given args (ascii "o")
    return .wrap pass file inp outp
  else if command = ascii "open" then do
    let pass ← given args (ascii "p")
    let file ← given args (ascii "f")
    let inp ← given args (ascii "i")
    let outp ← given args (ascii "o")
    return .unwrap pass file inp outp
  else if command = ascii "verify" then do
    let pass ← given args (ascii "p")
    let file ← given args (ascii "f")
    return .check pass file
  else none

/-- The flags that a command asks for, in its order. -/
def flagsOf (command : Str) : List Str :=
  if command = ascii "init" then [ascii "p", ascii "o"]
  else if command = ascii "add" then [ascii "p", ascii "n", ascii "f"]
  else if command = ascii "seal" ∨ command = ascii "open" then [ascii "p", ascii "f",
    ascii "i", ascii "o"]
  else if command = ascii "verify" then [ascii "p", ascii "f"]
  else []

def requestOf (argv : List Str) : Option (Request Str Str) :=
  match parseArgs argv with
  | .ok (command, args) => request command args
  | _ => none

def passphrasesOf : Request Str Str → List Str
  | .create pass _ => [pass]
  | .enroll pass newp _ => [pass, newp]
  | .wrap pass _ _ _ => [pass]
  | .unwrap pass _ _ _ => [pass]
  | .check pass _ => [pass]

def vaultOf : Request Str Str → Option Str
  | .create _ _ => none
  | .enroll _ _ file => some file
  | .wrap _ file _ _ => some file
  | .unwrap _ file _ _ => some file
  | .check _ file => some file

def passOf : Request Str Str → Str
  | .create pass _ => pass
  | .enroll pass _ _ => pass
  | .wrap pass _ _ _ => pass
  | .unwrap pass _ _ _ => pass
  | .check pass _ => pass

def inputOf : Request Str Str → Option Str
  | .wrap _ _ inp _ => some inp
  | .unwrap _ _ inp _ => some inp
  | _ => none

def outputOf : Request Str Str → Option Str
  | .create _ out => some out
  | .enroll _ _ file => some file
  | .wrap _ _ _ out => some out
  | .unwrap _ _ _ out => some out
  | .check _ _ => none

abbrev FileContent : Type := Content (U8Array MASTER_LEN) Str (List UInt8)

abbrev Files : Type := Cabinet Str (U8Array MASTER_LEN) Str (List UInt8)

def rootOf (crates : Crates) (pass : Str) : U8Array MASTER_LEN :=
  ((argon2idRoot crates pass MASTER_SALT MEM_KIB ITERS).toOption.bind fun root =>
    U8Array.tryFrom MASTER_LEN root.expose).getD (U8Array.zeros MASTER_LEN)

def SealedUnder (crates : Crates) (master : U8Array MASTER_LEN) (pt blob : List UInt8) : Prop :=
  ∃ hierarchy, KeyHierarchy.fromMaster crates master.val = .ok hierarchy ∧
    Sealed crates ⟨AegisKey.new32 master, hierarchy, none⟩ pt blob

/-- The blob opens with the bulk key of the master, whatever its first byte is. -/
def OpensUnder (crates : Crates) (master : U8Array MASTER_LEN) (pt blob : List UInt8) : Prop :=
  ∃ hierarchy first nonce ct, KeyHierarchy.fromMaster crates master.val = .ok hierarchy ∧
    nonce.length < 256 ∧
    blob = [first, UInt8.ofNat nonce.length] ++ nonce ++ ct ∧
    (AegisVault.mk (AegisKey.new32 master) hierarchy none).decrypt crates .enc nonce ct AAD
      .xChaCha20Poly1305 = .ok pt

/-- What the bytes of a file stand for. Data is no vault file. -/
def Holds (crates : Crates) (used : List Str) : FileContent → List UInt8 → Prop
  | .plain data, bytes => bytes = data ∧ ∀ slotBytes salt, bytes ≠ vaultFile slotBytes salt
  | .vault master members, bytes => ∃ table,
    bytes = vaultFile (KeySlotTable.toBytes crates table) table.headerSalt ∧
      KeySlotTable.Owned crates master members table ∧
        (∀ slot ∈ table.slots, slot.isEnabled = true) ∧ members ⊆ used
  | .sealed master inner, bytes => ∃ raw, SealedUnder crates master raw bytes ∧
    Holds crates used inner raw

structure Mirrors (crates : Crates) (used : List Str) (disk : Disk) (files : Files) : Prop where
  present : ∀ path content, files.files path = some content →
    ∃ bytes, disk.files path = .ok bytes ∧ Holds crates used content bytes
  missing : ∀ path, files.files path = none → ∀ bytes, disk.files path ≠ .ok bytes
  writable : ∀ path, files.writable path = true ↔ disk.refusals path = none

/-- The cryptography of the passphrases in use does not fail. -/
structure Able (crates : Crates) (used : List Str) : Prop where
  opens : crates.OpensSealed
  expands : crates.ExpandsShort
  tags : crates.AppendsTag
  roots : ∀ pass ∈ ascii "ignored" :: used, ∃ root,
    argon2idRoot crates pass MASTER_SALT MEM_KIB ITERS = .ok root
  keys : ∀ pass ∈ used, ∀ salt : U8Array 16, ∃ key, argon2idRoot crates pass salt.val 64 3 = .ok key
  wraps : ∀ key nonce (master : U8Array MASTER_LEN),
    crates.aes256GcmEncrypt key nonce master.val HEADER_MAGIC ≠ none

/-- What is on the disk opens only for those for whom it was sealed, and can be sealed once more. -/
structure Authentic (crates : Crates) (used : List Str) (disk : Disk) (files : Files) : Prop where
  slots : ∀ file table, storedTable crates file disk = some table → ∀ slot ∈ table.slots,
    KeysDiffer crates used slot ∧ RejectsOtherKeys crates used slot
  blobs : ∀ file table master members path content bytes pt,
    storedTable crates file disk = some table →
    files.files file = some (.vault master members) → files.files path = some content →
    disk.files path = .ok bytes → OpensUnder crates master pt bytes → ∃ inner,
      content = .sealed master inner
  encrypts : ∀ path bytes, disk.files path = .ok bytes →
    ∀ key nonce, crates.xChaChaEncrypt key nonce bytes AAD ≠ none

variable {crates : Crates} {used : List Str} {disk : Disk} {files : Files} {file pass : Str}

theorem given_eq_some_iff {args : Args} {key value : Str} :
    given args key = some value ↔ args key = some value ∧ value ≠ [] := by
  simp only [given, Option.filter_eq_some_iff, Bool.not_eq_true', List.isEmpty_eq_false_iff]

theorem req_of_missing {args : Args} {key : Str} (missing : given args key = none) (disk : Disk) :
    req args key disk = (.err (.missing key), disk) := by
  unfold given at missing
  unfold req
  cases found : args key with
  | none => rfl
  | some value =>
    rw [found] at missing
    cases value with
    | nil => rfl
    | cons first rest => cases missing

theorem Able.root (able : Able crates used) (member : pass ∈ used) :
    argon2idRoot crates pass MASTER_SALT MEM_KIB ITERS =
    .ok (AegisKey.new32 (rootOf crates pass)) := by
  obtain ⟨root, derived⟩ := able.roots pass (List.mem_cons_of_mem _ member)
  obtain ⟨raw, rfl⟩ := argon2idRoot_ok crates derived
  rw [rootOf, derived]
  simp only [Outcome.toOption, Option.bind_some, AegisKey.expose_new32, U8Array.tryFrom_val,
    Option.getD_some]

theorem Able.creates (able : Able crates used) (member : pass ∈ used) (master : U8Array MASTER_LEN)
    (draws : SlotDraws) :
    ∃ slot, KeySlot.create crates master pass 64 3 draws = .ok slot := by
  obtain ⟨key, derived⟩ := able.keys pass member draws.salt
  obtain ⟨raw, rfl⟩ := argon2idRoot_ok crates derived
  obtain ⟨ct, encrypted⟩ :=
    Option.ne_none_iff_exists'.mp (able.wraps raw (draws.fill NONCE_LEN) master)
  have length : ct.length = CT_LEN := by
    rw [able.tags _ _ _ _ _ encrypted, U8Array.length_val]
  exact sealable_iff.mp ⟨raw, ⟨ct, length⟩, derived, encrypted⟩

theorem Able.ignored (able : Able crates used) :
    ∃ ignored, AegisVault.unlock crates (ascii "ignored") MASTER_SALT MEM_KIB ITERS =
    .ok ignored := by
  obtain ⟨root, derived⟩ := able.roots _ List.mem_cons_self
  exact ignored_unlocks crates able.expands derived

theorem SealedUnder.not_vaultFile {master : U8Array MASTER_LEN} {pt blob : List UInt8}
    (sealed : SealedUnder crates master pt blob) (slotBytes : List UInt8) (salt : U8Array 32) :
    blob ≠ vaultFile slotBytes salt := by
  obtain ⟨_, _, made⟩ := sealed
  obtain ⟨_, nonce, ct, _, rfl⟩ := sealed_iff.mp made
  exact sealedBlob_ne_vaultFile nonce ct slotBytes salt

theorem Mirrors.vault_of_file (mirrors : Mirrors crates used disk files) {slotBytes : List UInt8}
    {salt : U8Array 32} (content : disk.files file = .ok (vaultFile slotBytes salt)) :
    ∃ master members table, files.files file = some (.vault master members) ∧
      Kept crates file master used ⟨disk, members⟩ table := by
  cases found : files.files file with
  | none => exact absurd content (mirrors.missing file found _)
  | some held =>
    obtain ⟨bytes, read, holds⟩ := mirrors.present file held found
    cases held with
    | plain data =>
      rw [read, Except.ok.injEq] at content
      exact absurd content (holds.2 _ _)
    | vault master members =>
      obtain ⟨table, rfl, owned, enabled, inUse⟩ := holds
      exact ⟨master, members, table, rfl, read, owned, enabled, inUse⟩
    | sealed master inner =>
      rw [read, Except.ok.injEq] at content
      obtain ⟨raw, sealed, _⟩ := holds
      exact absurd content (sealed.not_vaultFile _ _)

theorem Mirrors.kept (mirrors : Mirrors crates used disk files) {master : U8Array MASTER_LEN}
    {members : List Str} (found : files.files file = some (.vault master members)) :
    ∃ table, Kept crates file master used ⟨disk, members⟩ table := by
  obtain ⟨bytes, read, table, rfl, owned, enabled, inUse⟩ := mirrors.present file _ found
  exact ⟨table, read, owned, enabled, inUse⟩

theorem Mirrors.openVault_of_access (mirrors : Mirrors crates used disk files)
    (able : Able crates used)
    (authentic : Authentic crates used disk files) {master : U8Array MASTER_LEN}
    (accessed : files.access file pass = some master) :
    ∃ hierarchy members table, KeyHierarchy.fromMaster crates master.val = .ok hierarchy ∧
      files.files file = some (.vault master members) ∧
      Kept crates file master used ⟨disk, members⟩ table ∧
      openVault crates file pass disk =
      (.ok ⟨AegisKey.new32 master, hierarchy, some table⟩, disk) := by
  obtain ⟨members, found, member⟩ := Cabinet.access_eq_some_iff.mp accessed
  obtain ⟨table, kept⟩ := mirrors.kept found
  obtain ⟨hierarchy, derived⟩ := KeyHierarchy.fromMaster_total crates able.expands master.val
  obtain ⟨ignored, unlocked⟩ := able.ignored
  have rejects := fun slot inTable =>
    (authentic.slots file table kept.storedTable_eq slot inTable).2
  exact ⟨hierarchy, members, table, derived, found, kept,
    kept.member_opens able.opens rejects unlocked derived member⟩

theorem Mirrors.access_of_openVault (mirrors : Mirrors crates used disk files)
    (able : Able crates used)
    (authentic : Authentic crates used disk files) (passUsed : pass ∈ used) {v : AegisVault}
    {after : Disk} (opened : openVault crates file pass disk = (.ok v, after)) :
    ∃ master, files.access file pass = some master := by
  obtain ⟨_, slotBytes, salt, _, content, _⟩ := (openVault_eq_ok_iff crates _ _ _).mp opened
  obtain ⟨master, members, table, found, kept⟩ := mirrors.vault_of_file content
  refine ⟨master, Cabinet.access_eq_some_iff.mpr ⟨members, found, ?_⟩⟩
  obtain ⟨_, stored, raw, idx, same, unsealed, _⟩ := openVault_stored opened
  rw [kept.storedTable_eq, Option.some.injEq] at same
  subst same
  obtain ⟨slot, at_idx, enabled, unsealedSlot, _⟩ :=
    (KeySlotTable.unsealWith_eq_ok_iff crates _ _ _ _).mp unsealed
  obtain ⟨owner, member, owned⟩ := kept.owned.owner_of_slot at_idx
  obtain ⟨differ, rejects⟩ :=
    authentic.slots file table kept.storedTable_eq slot (List.mem_of_getElem? at_idx)
  have wraps := kept.owned.wraps idx slot owner at_idx enabled owned
  have opener := ((wraps.unsealSlot_iff able.opens differ rejects (kept.inUse member) passUsed _).mp
    unsealedSlot).1
  exact opener ▸ member

end SoteriaAegis.Cli
