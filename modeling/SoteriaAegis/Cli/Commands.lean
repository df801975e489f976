import SoteriaAegis.Vault.Vault

/-! The `aegis` program: its flags, the vault file, the sealed blob and its five commands. A
process works on the disk and keeps what it wrote before it failed. -/

namespace SoteriaAegis.Cli
open Rust Crypto Slots Vault

/-- A string, as its bytes. -/
abbrev Str : Type := List UInt8

def MAGIC : List UInt8 := ascii "AEGIS"
def VERSION : UInt8 := 1
def MASTER_SALT : List UInt8 := ascii "aegis-cli-salt-v1"
def MEM_KIB : UInt32 := 32 * 1024
def ITERS : UInt32 := 2
def AAD : List UInt8 := ascii "aegis-cli"

/-- The ways in which a process ends with exit code 1. -/
inductive Failure where
  | usage
  | unknownCommand (command : Str)
  | missing (key : Str)
  | cannotRead (path error : Str)
  | cannotWrite (path error : Str)
  | vaultTooShort
  | notAVault
  | unsupportedVersion
  | cannotOpenVault (error : AegisError)
  | keyDerivation (error : AegisError)
  | sealFailed (error : AegisError)
  | addSlotFailed (error : AegisError)
  | encryptFailed (error : AegisError)
  | blobTooShort
  | blobCorrupt
  | decryptFailed (error : AegisError)
  | verifyFailed
  deriving DecidableEq

/-- The text passed to `fail`; an unknown command and bad usage print the help instead. -/
def Failure.message : Failure → Option Str
  | usage => none
  | unknownCommand _ => none
  | missing key => some (ascii "missing -" ++ key)
  | cannotRead path error => some (ascii "cannot read " ++ path ++ ascii ": " ++ error)
  | cannotWrite path error => some (ascii "cannot write " ++ path ++ ascii ": " ++ error)
  | vaultTooShort => some (ascii "vault file is too short / corrupt")
  | notAVault => some (ascii "not an aegis vault file")
  | unsupportedVersion => some (ascii "unsupported vault version")
  | cannotOpenVault error => some (ascii "cannot open vault (wrong passphrase?): " ++ ascii error.message)
  | keyDerivation error => some (ascii "key derivation failed: " ++ ascii error.message)
  | sealFailed error => some (ascii "seal failed: " ++ ascii error.message)
  | addSlotFailed error => some (ascii "add slot failed: " ++ ascii error.message)
  | encryptFailed error => some (ascii "encrypt failed: " ++ ascii error.message)
  | blobTooShort => some (ascii "ciphertext blob too short")
  | blobCorrupt => some (ascii "ciphertext blob corrupt")
  | decryptFailed error => some (ascii "decrypt failed (bad key/passphrase?): " ++ ascii error.message)
  | verifyFailed => some (ascii "volume key-check did not verify")

/-- What `fs::read` answers for each path, and the paths whose `fs::write` is refused. -/
structure Disk where
  files : Str → Except Str (List UInt8)
  refusals : Str → Option Str

def Disk.write (disk : Disk) (path : Str) (bytes : List UInt8) : Disk :=
  { disk with files := fun other => if other = path then .ok bytes else disk.files other }

abbrev Process (α : Type) : Type := Method Disk Failure α

structure Draws where
  table : TableDraws
  fill : OsFill

def readFile (path : Str) : Process (List UInt8) := do
  let disk ← Method.self
  match disk.files path with
  | .ok bytes => return bytes
  | .error error => Method.fail (.cannotRead path error)

def writeFile (path : Str) (bytes : List UInt8) : Process Unit := do
  let disk ← Method.self
  match disk.refusals path with
  | some error => Method.fail (.cannotWrite path error)
  | none => Method.update fun disk => disk.write path bytes

abbrev Args : Type := Str → Option Str

def Args.insert (args : Args) (key value : Str) : Args := fun other => if other = key then some value else args other

/-- The loop of `parse_args`: a flag takes the argument behind it, or an empty value at the end. -/
def parseFlags (args : Args) : List Str → Args
  | [] => args
  | flag :: others =>
    match flag with
    | 0x2D :: key =>
      match others with
      | value :: others => parseFlags (args.insert key value) others
      | [] => args.insert key []
    | _ => parseFlags args others

def parseArgs (argv : List Str) : Outcome Failure (Str × Args) :=
  match argv with
  | _ :: command :: flags => .ok (command, parseFlags (fun _ => none) flags)
  | _ => .err .usage

def req (args : Args) (key : Str) : Process Str :=
  match args key with
  | some value => if value.isEmpty then Method.fail (.missing key) else return value
  | none => Method.fail (.missing key)

variable (crates : Crates)

def readVault (path : Str) : Process (List UInt8 × U8Array 32) := do
  let buf ← readFile path
  if buf.length < 5 + 1 + 32 then Method.fail .vaultTooShort
  else
    let magic ← Method.lift (sliceRange buf 0 5)
    if magic ≠ MAGIC then Method.fail .notAVault
    else
      let version ← Method.lift (Outcome.index buf 5)
      if version ≠ VERSION then Method.fail .unsupportedVersion
      else
        let saltBytes ← Method.lift (sliceRange buf 6 38)
        let salt ← Method.lift (U8Array.copyFromSlice 32 saltBytes)
        let slotBytes ← Method.lift (sliceRange buf 38 buf.length)
        return (slotBytes, salt)

def vaultFile (slotBytes : List UInt8) (salt : U8Array 32) : List UInt8 := MAGIC ++ [VERSION] ++ salt.val ++ slotBytes

def writeVault (path : Str) (slotBytes : List UInt8) (salt : U8Array 32) : Process Unit :=
  writeFile path (vaultFile slotBytes salt)

/-- A throwaway vault is unlocked first, and the file's table opened in it. -/
def openVault (path pass : Str) : Process AegisVault := do
  let (slotBytes, salt) ← readVault path
  let v ← Method.lift (Outcome.expect (AegisVault.unlock crates (ascii "ignored") MASTER_SALT MEM_KIB ITERS))
  let (_, v) ← Method.lift (((AegisVault.openFromSlots crates slotBytes salt pass).on v).mapErr .cannotOpenVault)
  return v

def initCommand (args : Args) (draws : Draws) : Process Unit := do
  let pass ← req args (ascii "p")
  let out ← req args (ascii "o")
  let v ← Method.lift ((AegisVault.unlock crates pass MASTER_SALT MEM_KIB ITERS).mapErr .keyDerivation)
  let (_, v) ← Method.lift (((AegisVault.sealSlots crates pass draws.table).on v).mapErr .sealFailed)
  let bytes ← Method.lift (Outcome.expectSome (v.slotsToBytes crates))
  let salt ← Method.lift (Outcome.expectSome v.slotsHeaderSalt)
  writeVault out bytes salt

def addCommand (args : Args) (draws : Draws) : Process Unit := do
  let pass ← req args (ascii "p")
  let newp ← req args (ascii "n")
  let file ← req args (ascii "f")
  let v ← openVault crates file pass
  let (_, v) ← Method.lift (((AegisVault.addSlot crates newp draws.table).on v).mapErr .addSlotFailed)
  let bytes ← Method.lift (Outcome.expectSome (v.slotsToBytes crates))
  let salt ← Method.lift (Outcome.expectSome v.slotsHeaderSalt)
  writeVault file bytes salt

def sealedBlob (nonce ct : List UInt8) : List UInt8 := [0] ++ [UInt8.ofNat nonce.length] ++ nonce ++ ct

def sealCommand (args : Args) (draws : Draws) : Process Unit := do
  let pass ← req args (ascii "p")
  let file ← req args (ascii "f")
  let inp ← req args (ascii "i")
  let outp ← req args (ascii "o")
  let v ← openVault crates file pass
  let data ← readFile inp
  let (nonce, ct) ← Method.lift
    ((v.encrypt crates .enc data AAD .xChaCha20Poly1305 draws.fill).mapErr .encryptFailed)
  writeFile outp (sealedBlob nonce ct)

def openCommand (args : Args) : Process Unit := do
  let pass ← req args (ascii "p")
  let file ← req args (ascii "f")
  let inp ← req args (ascii "i")
  let outp ← req args (ascii "o")
  let v ← openVault crates file pass
  let blob ← readFile inp
  if blob.length < 2 then Method.fail .blobTooShort
  else
    let nlen ← Method.lift (Outcome.index blob 1)
    if blob.length < 2 + nlen.toNat then Method.fail .blobCorrupt
    else
      let nonce ← Method.lift (sliceRange blob 2 (2 + nlen.toNat))
      let ct ← Method.lift (sliceRange blob (2 + nlen.toNat) blob.length)
      let pt ← Method.lift ((v.decrypt crates .enc nonce ct AAD .xChaCha20Poly1305).mapErr .decryptFailed)
      writeFile outp pt

def verifyCommand (args : Args) : Process Unit := do
  let pass ← req args (ascii "p")
  let file ← req args (ascii "f")
  let v ← openVault crates file pass
  let verified ← Method.lift (v.verifyVolume crates)
  if verified then return () else Method.fail .verifyFailed

def dispatch (command : Str) (args : Args) (draws : Draws) : Process Unit :=
  if command = ascii "init" then initCommand crates args draws
  else if command = ascii "add" then addCommand crates args draws
  else if command = ascii "seal" then sealCommand crates args draws
  else if command = ascii "open" then openCommand crates args
  else if command = ascii "verify" then verifyCommand crates args
  else Method.fail (.unknownCommand command)

def main (draws : Draws) (argv : List Str) : Process Unit := do
  let (command, args) ← Method.lift (parseArgs argv)
  dispatch crates command args draws

theorem readFile_reads (path : Str) : (readFile path).Reads := by
  intro disk
  rw [readFile, Method.self_bind]
  cases disk.files path with
  | ok bytes => rfl
  | error error => rfl

theorem readFile_eq_ok_iff (path : Str) (disk after : Disk) (bytes : List UInt8) :
    readFile path disk = (.ok bytes, after) ↔ disk.files path = .ok bytes ∧ after = disk := by
  rw [readFile, Method.self_bind]
  cases disk.files path with
  | ok found => simp [eq_comm]
  | error error => simp

theorem writeFile_atomic (path : Str) (bytes : List UInt8) : (writeFile path bytes).Atomic := by
  intro disk
  rw [writeFile, Method.self_bind]
  cases disk.refusals path with
  | some error => exact Or.inr rfl
  | none => exact Or.inl ⟨(), rfl⟩

theorem writeFile_eq_ok_iff (path : Str) (bytes : List UInt8) (disk after : Disk) :
    writeFile path bytes disk = (.ok (), after) ↔ disk.refusals path = none ∧ after = disk.write path bytes := by
  rw [writeFile, Method.self_bind]
  cases disk.refusals path with
  | some error => simp
  | none => simp [eq_comm]

@[simp] theorem Disk.write_same (disk : Disk) (path : Str) (bytes : List UInt8) :
    (disk.write path bytes).files path = .ok bytes := if_pos rfl

theorem Disk.write_other (disk : Disk) {path other : Str} (differ : other ≠ path) (bytes : List UInt8) :
    (disk.write path bytes).files other = disk.files other := if_neg differ

@[simp] theorem Disk.write_refusals (disk : Disk) (path : Str) (bytes : List UInt8) :
    (disk.write path bytes).refusals = disk.refusals := rfl

theorem req_reads (args : Args) (key : Str) : (req args key).Reads := by
  unfold req
  cases args key with
  | none => exact Method.reads_fail _
  | some value => exact Method.reads_ite (Method.reads_fail _) (Method.reads_pure _)

theorem req_eq_ok_iff (args : Args) (key value : Str) (disk after : Disk) :
    req args key disk = (.ok value, after) ↔ args key = some value ∧ value ≠ [] ∧ after = disk := by
  unfold req
  cases args key with
  | none => simp
  | some found =>
    cases found with
    | nil =>
      simp only [List.isEmpty_nil, if_true, Method.fail_apply, Option.some.injEq]
      constructor
      · intro impossible
        cases impossible
      · intro ⟨same, nonempty, _⟩
        exact absurd same.symm nonempty
    | cons byte bytes =>
      simp only [List.isEmpty_cons, Bool.false_eq_true, if_false, Method.pure_apply, Option.some.injEq]
      constructor
      · intro same
        cases same
        exact ⟨rfl, List.cons_ne_nil byte bytes, rfl⟩
      · intro ⟨same, _, unchanged⟩
        rw [same, unchanged]

theorem readVault_reads (path : Str) : (readVault path).Reads := by
  apply (readFile_reads path).bind
  intro buf
  apply Method.reads_ite (Method.reads_fail _)
  apply (Method.reads_lift _).bind
  intro magic
  apply Method.reads_ite (Method.reads_fail _)
  apply (Method.reads_lift _).bind
  intro version
  apply Method.reads_ite (Method.reads_fail _)
  apply (Method.reads_lift _).bind
  intro saltBytes
  apply (Method.reads_lift _).bind
  intro salt
  apply (Method.reads_lift _).bind
  intro slotBytes
  exact Method.reads_pure _

theorem openVault_reads (path pass : Str) : (openVault crates path pass).Reads := by
  apply (readVault_reads path).bind
  intro stored
  apply (Method.reads_lift _).bind
  intro v
  apply (Method.reads_lift _).bind
  intro opened
  exact Method.reads_pure _

section
variable (args : Args) (draws : Draws)

theorem initCommand_atomic : (initCommand crates args draws).Atomic := by
  apply (req_reads args _).bind_atomic
  intro pass
  apply (req_reads args _).bind_atomic
  intro out
  apply (Method.reads_lift _).bind_atomic
  intro v
  apply (Method.reads_lift _).bind_atomic
  intro opened
  apply (Method.reads_lift _).bind_atomic
  intro bytes
  apply (Method.reads_lift _).bind_atomic
  intro salt
  exact writeFile_atomic _ _

theorem addCommand_atomic : (addCommand crates args draws).Atomic := by
  apply (req_reads args _).bind_atomic
  intro pass
  apply (req_reads args _).bind_atomic
  intro newp
  apply (req_reads args _).bind_atomic
  intro file
  apply (openVault_reads crates file pass).bind_atomic
  intro v
  apply (Method.reads_lift _).bind_atomic
  intro added
  apply (Method.reads_lift _).bind_atomic
  intro bytes
  apply (Method.reads_lift _).bind_atomic
  intro salt
  exact writeFile_atomic _ _

theorem sealCommand_atomic : (sealCommand crates args draws).Atomic := by
  apply (req_reads args _).bind_atomic
  intro pass
  apply (req_reads args _).bind_atomic
  intro file
  apply (req_reads args _).bind_atomic
  intro inp
  apply (req_reads args _).bind_atomic
  intro outp
  apply (openVault_reads crates file pass).bind_atomic
  intro v
  apply (readFile_reads inp).bind_atomic
  intro data
  apply (Method.reads_lift _).bind_atomic
  intro encrypted
  exact writeFile_atomic _ _

theorem openCommand_atomic : (openCommand crates args).Atomic := by
  apply (req_reads args _).bind_atomic
  intro pass
  apply (req_reads args _).bind_atomic
  intro file
  apply (req_reads args _).bind_atomic
  intro inp
  apply (req_reads args _).bind_atomic
  intro outp
  apply (openVault_reads crates file pass).bind_atomic
  intro v
  apply (readFile_reads inp).bind_atomic
  intro blob
  apply Method.atomic_ite (Method.reads_fail _).atomic
  apply (Method.reads_lift _).bind_atomic
  intro nlen
  apply Method.atomic_ite (Method.reads_fail _).atomic
  apply (Method.reads_lift _).bind_atomic
  intro nonce
  apply (Method.reads_lift _).bind_atomic
  intro ct
  apply (Method.reads_lift _).bind_atomic
  intro pt
  exact writeFile_atomic _ _

theorem verifyCommand_reads : (verifyCommand crates args).Reads := by
  apply (req_reads args _).bind
  intro pass
  apply (req_reads args _).bind
  intro file
  apply (openVault_reads crates file pass).bind
  intro v
  apply (Method.reads_lift _).bind
  intro verified
  exact Method.reads_ite (Method.reads_pure _) (Method.reads_fail _)

/-- A process that fails or panics leaves the disk as it found it. -/
theorem main_atomic (argv : List Str) : (main crates draws argv).Atomic := by
  apply (Method.reads_lift _).bind_atomic
  intro ⟨command, args⟩
  apply Method.atomic_ite (initCommand_atomic crates args draws)
  apply Method.atomic_ite (addCommand_atomic crates args draws)
  apply Method.atomic_ite (sealCommand_atomic crates args draws)
  apply Method.atomic_ite (openCommand_atomic crates args)
  apply Method.atomic_ite (verifyCommand_reads crates args).atomic
  exact (Method.reads_fail _).atomic

end
end SoteriaAegis.Cli
