import SoteriaAegis.Rust.Program
import SoteriaAegis.Cli.Adding

/-! The processes of the program as they share a disk. Reading a file and writing one are single
accesses; what a process computes in between depends on what it has read. -/

namespace SoteriaAegis.Cli
open Rust Crypto Slots Vault

def openFor (crates : Crates) (args : Args) : Process (Str × Str × AegisVault) := do
  let pass ← req args (ascii "p")
  let file ← req args (ascii "f")
  let inp ← req args (ascii "i")
  let outp ← req args (ascii "o")
  let v ← openVault crates file pass
  return (inp, outp, v)

variable (crates : Crates)

def sealWrite (outp : Str) (v : AegisVault) (data : List UInt8) (draws : Draws) : Process Unit := do
  let (nonce, ct) ← Method.lift
    ((v.encrypt crates .enc data AAD .xChaCha20Poly1305 draws.fill).mapErr .encryptFailed)
  writeFile outp (sealedBlob nonce ct)

def openWrite (outp : Str) (v : AegisVault) (blob : List UInt8) : Process Unit :=
  if blob.length < 2 then Method.fail .blobTooShort
  else do
    let nlen ← Method.lift (Outcome.index blob 1)
    if blob.length < 2 + nlen.toNat then Method.fail .blobCorrupt
    else
      let nonce ← Method.lift (sliceRange blob 2 (2 + nlen.toNat))
      let ct ← Method.lift (sliceRange blob (2 + nlen.toNat) blob.length)
      let pt ← Method.lift ((v.decrypt crates .enc nonce ct AAD .xChaCha20Poly1305).mapErr
        .decryptFailed)
      writeFile outp pt

abbrev Task : Type := Program Disk Failure Unit

def initTask (args : Args) (draws : Draws) : Task := .atomic (initCommand crates args draws)

def addTask (args : Args) (draws : Draws) : Task := do
  let held ← .atomic (addRead args)
  .atomic (addCommit crates held draws)

def sealTask (args : Args) (draws : Draws) : Task := do
  let (inp, outp, v) ← .atomic (openFor crates args)
  let data ← .atomic (readFile inp)
  .atomic (sealWrite crates outp v data draws)

def openTask (args : Args) : Task := do
  let (inp, outp, v) ← .atomic (openFor crates args)
  let blob ← .atomic (readFile inp)
  .atomic (openWrite crates outp v blob)

def verifyTask (args : Args) : Task := .atomic (verifyCommand crates args)

def task (command : Str) (args : Args) (draws : Draws) : Task :=
  if command = ascii "init" then initTask crates args draws
  else if command = ascii "add" then addTask crates args draws
  else if command = ascii "seal" then sealTask crates args draws
  else if command = ascii "open" then openTask crates args
  else if command = ascii "verify" then verifyTask crates args
  else .done (.err (.unknownCommand command))

def mainTask (draws : Draws) (argv : List Str) : Task :=
  match parseArgs argv with
  | .ok (command, args) => task crates command args draws
  | .err failure => .done (.err failure)
  | .panic => .done .panic

theorem addTask_exec (args : Args) (draws : Draws) :
    (addTask crates args draws).exec = addCommand crates args draws := by
  rw [addCommand_eq, addTask, Program.exec_bind]
  rfl

theorem sealTask_exec (args : Args) (draws : Draws) :
    (sealTask crates args draws).exec = sealCommand crates args draws := by
  rw [sealTask, Program.exec_bind, Program.exec_atomic, openFor, sealCommand]
  simp only [Program.exec_bind, Program.exec_atomic, Method.bind_assoc]
  rfl

theorem openTask_exec (args : Args) : (openTask crates args).exec = openCommand crates args := by
  rw [openTask, Program.exec_bind, Program.exec_atomic, openFor, openCommand]
  simp only [Program.exec_bind, Program.exec_atomic, Method.bind_assoc]
  rfl

theorem task_exec (command : Str) (args : Args) (draws : Draws) :
    (task crates command args draws).exec = dispatch crates command args draws := by
  unfold task dispatch
  simp only [apply_ite Program.exec, addTask_exec, sealTask_exec, openTask_exec]
  rfl

/-- A process that is alone on the disk is the program of `Cli.Commands`. -/
theorem mainTask_exec (draws : Draws) (argv : List Str) :
    (mainTask crates draws argv).exec = main crates draws argv := by
  unfold mainTask main
  funext disk
  rw [Method.bind_apply, Method.lift_apply]
  cases parseArgs argv with
  | ok parsed => rw [task_exec]
  | err failure => rfl
  | panic => rfl

end SoteriaAegis.Cli
