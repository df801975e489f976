import SoteriaAegis.Memory.VaultRuns
import SoteriaAegis.Cli.Serving

/-! The program in the memory of its process, in a build whose panics unwind. A command holds one
vault, which goes when the command returns or panics; `fail` ends the process where it stands, and
drops nothing. In memory are the boxes of the keys and the master that a slot yields. What a
command reads, computes and writes besides is a value here. -/

namespace SoteriaAegis.Memory
open Rust Crypto Slots Vault Access
open Cli (Str Draws Disk Failure MEM_KIB ITERS AAD)

variable {platform : Platform} {α β : Type}

structure Machine (platform : Platform) where
  heap : Heap platform
  disk : Disk

structure Running (platform : Platform) where
  process : Process platform
  disk : Disk

namespace Running

def onDisk (call : Cli.Process α) : Method (Running platform) Failure α := fun running =>
  ((call running.disk).1, { running with disk := (call running.disk).2 })

def onVault (call : Method (Process platform) Failure α) : Method (Running platform) Failure α :=
  fun running =>
  ((call running.process).1, { running with process := (call running.process).2 })

def leave (running : Running platform) : Machine platform :=
  ⟨running.process.vault.drop running.process.heap, running.disk⟩

end Running

namespace Machine

def onDisk (call : Cli.Process α) : Method (Machine platform) Failure α := fun machine =>
  ((call machine.disk).1, { machine with disk := (call machine.disk).2 })

def onHeap (call : Method (Heap platform) Failure α) : Method (Machine platform) Failure α :=
  fun machine =>
  ((call machine.heap).1, { machine with heap := (call machine.heap).2 })

/-- The rest of a command, from the vault on. An error is a call of `process::exit`. -/
def holding (vault : BoxedVault) (body : Method (Running platform) Failure α) :
    Method (Machine platform) Failure α :=
  fun machine =>
    match body ⟨⟨machine.heap, vault⟩, machine.disk⟩ with
    | (.ok value, after) => (.ok value, after.leave)
    | (.err failure, after) => (.err failure, ⟨after.process.heap, after.disk⟩)
    | (.panic, after) => (.panic, after.leave)

end Machine

open Running Machine
variable (crates : Crates)

def saveVault (path : Str) : Method (Running platform) Failure Unit := do
  let running ← Method.self
  let bytes ← Method.lift (Outcome.expectSome (running.process.vault.slots.map (·.toBytes crates)))
  let salt ← Method.lift (Outcome.expectSome (running.process.vault.slots.map (·.headerSalt)))
  Running.onDisk (Cli.writeVault path bytes salt)

def withVault (path pass : Str) (body : Method (Running platform) Failure α) :
    Method (Machine platform) Failure α := do
  let (slotBytes, salt) ← Machine.onDisk (Cli.readVault path)
  let v ← onHeap (Method.expect
    (BoxedVault.unlock crates (ascii "ignored") Cli.MASTER_SALT MEM_KIB ITERS :
      Method (Heap platform) AegisError _))
  holding v do
    onVault ((Process.openFromSlots crates slotBytes salt pass).mapErr .cannotOpenVault)
    body

def serve (draws : Draws) : Request Str Str → Method (Machine platform) Failure Unit
  | .create pass out => do
    let v ← onHeap ((BoxedVault.unlock crates pass Cli.MASTER_SALT MEM_KIB ITERS).mapErr
      .keyDerivation)
    holding v do
      onVault ((Process.sealSlots crates pass draws.table).mapErr .sealFailed)
      saveVault crates out
  | .enroll pass newp file =>
    withVault crates file pass do
      let _ ← onVault ((Process.addSlot crates newp draws.table).mapErr .addSlotFailed)
      saveVault crates file
  | .wrap pass file inp outp =>
    withVault crates file pass do
      let data ← Running.onDisk (Cli.readFile inp)
      let (nonce, ct) ← onVault
        ((Process.encrypt crates .enc data AAD .xChaCha20Poly1305 draws.fill).mapErr .encryptFailed)
      Running.onDisk (Cli.writeFile outp (Cli.sealedBlob nonce ct))
  | .unwrap pass file inp outp =>
    withVault crates file pass do
      let blob ← Running.onDisk (Cli.readFile inp)
      if blob.length < 2 then Method.fail .blobTooShort
      else
        let nlen ← Method.lift (Outcome.index blob 1)
        if blob.length < 2 + nlen.toNat then Method.fail .blobCorrupt
        else
          let nonce ← Method.lift (sliceRange blob 2 (2 + nlen.toNat))
          let ct ← Method.lift (sliceRange blob (2 + nlen.toNat) blob.length)
          let pt ← onVault ((Process.decrypt crates .enc nonce ct AAD .xChaCha20Poly1305).mapErr
            .decryptFailed)
          Running.onDisk (Cli.writeFile outp pt)
  | .check pass file =>
    withVault crates file pass do
      let verified ← onVault ((Process.verifyVolume crates).mapErr fun _ => .verifyFailed)
      if verified then return () else Method.fail .verifyFailed

def main (draws : Draws) (argv : List Str) : Method (Machine platform) Failure Unit := do
  let (command, args) ← Method.lift (Cli.parseArgs argv)
  let wish ← Method.lift (Cli.asks command args)
  serve crates draws wish

end SoteriaAegis.Memory
