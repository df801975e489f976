import SoteriaAegis.Cli.Tasks

/-! What a process leaves alone: everything but the one file that its command line names for it. -/

namespace SoteriaAegis.Cli
open Rust Crypto Slots Vault

def target (command : Str) (args : Args) : Option Str :=
  if command = ascii "add" then args (ascii "f")
  else if command = ascii "init" ∨ command = ascii "seal" ∨ command = ascii
    "open" then args (ascii "o")
  else none

/-- The call leaves the disk alone, or writes one file as claimed. -/
def Writes {α : Type} (claim : Str → List UInt8 → Prop) (call : Process α) : Prop :=
  ∀ disk, (call disk).2 = disk ∨ ∃ path bytes, claim path bytes ∧
    (call disk).2 = disk.write path bytes

namespace Writes
variable {α β : Type} {claim : Str → List UInt8 → Prop}

theorem of_reads {call : Process α} (reads : call.Reads) : Writes claim call :=
  fun disk => Or.inl (reads disk)

theorem bind {first : Process α} {next : α → Process β} (reads : first.Reads)
    (others : ∀ disk value, first disk = (.ok value, disk) → Writes claim (next value)) :
    Writes claim (first >>= next) := by
  intro disk
  have same := reads disk
  rw [Method.bind_apply]
  cases ran : first disk with
  | mk result after =>
    rw [ran] at same
    subst same
    cases result with
    | ok value => exact others after value ran after
    | err failure => exact Or.inl rfl
    | panic => exact Or.inl rfl

theorem lift_bind {call : Outcome Failure α} {next : α → Process β}
    (others : ∀ value, call = .ok value → Writes claim (next value)) :
    Writes claim (Method.lift call >>= next) := by
  apply bind (Method.reads_lift call)
  intro disk value returned
  exact others value (congrArg Prod.fst returned)

theorem ite {condition : Prop} [Decidable condition] {first second : Process α}
    (yes : Writes claim first)
    (no : Writes claim second) : Writes claim (if condition then first else second) := by
  split
  · exact yes
  · exact no

theorem writeFile {path : Str} {bytes : List UInt8} (claimed : claim path bytes) :
    Writes claim (Cli.writeFile path bytes) := by
  intro disk
  rw [Cli.writeFile, Method.self_bind]
  cases disk.refusals path with
  | some error => exact Or.inl rfl
  | none => exact Or.inr ⟨path, bytes, claimed, rfl⟩

theorem imp {call : Process α} {claim' : Str → List UInt8 → Prop} (writes : Writes claim call)
    (implies : ∀ path bytes, claim path bytes → claim' path bytes) : Writes claim' call := by
  intro disk
  rcases writes disk with unchanged | ⟨path, bytes, claimed, written⟩
  · exact Or.inl unchanged
  · exact Or.inr ⟨path, bytes, implies path bytes claimed, written⟩

end Writes

section
variable (crates : Crates) (args : Args) (draws : Draws)

theorem initCommand_writes : Writes (fun path _ => args (ascii "o") = some path)
    (initCommand crates args draws) := by
  apply Writes.bind (req_reads args _)
  intro disk pass passGiven
  apply Writes.bind (req_reads args _)
  intro disk out outGiven
  apply Writes.lift_bind
  intro v unlocked
  apply Writes.lift_bind
  intro sealing sealedTable
  apply Writes.lift_bind
  intro bytes written
  apply Writes.lift_bind
  intro salt salted
  exact Writes.writeFile ((req_eq_ok_iff _ _ _ _ _).mp outGiven).1

theorem addCommit_writes (held : Held) :
    Writes (fun path bytes => path = held.file ∧ ∃ slotBytes salt,
    addCompute crates held draws = .ok (slotBytes, salt) ∧ bytes = vaultFile slotBytes salt)
    (addCommit crates held draws) := by
  apply Writes.lift_bind
  intro answer computed
  exact Writes.writeFile ⟨rfl, answer.1, answer.2, computed, rfl⟩

theorem sealWrite_writes (outp : Str) (v : AegisVault) (data : List UInt8) :
    Writes (fun path bytes => path = outp ∧ ∃ nonce ct,
      v.encrypt crates .enc data AAD .xChaCha20Poly1305 draws.fill = .ok (nonce, ct) ∧
      bytes = sealedBlob nonce ct) (sealWrite crates outp v data draws) := by
  apply Writes.lift_bind
  intro message encrypted
  rw [Outcome.mapErr_eq_ok_iff] at encrypted
  exact Writes.writeFile ⟨rfl, message.1, message.2, encrypted, rfl⟩

theorem openWrite_writes (outp : Str) (v : AegisVault) (blob : List UInt8) :
    Writes (fun path _ => path = outp) (openWrite crates outp v blob) := by
  apply Writes.ite (Writes.of_reads (Method.reads_fail _))
  apply Writes.lift_bind
  intro nlen indexed
  apply Writes.ite (Writes.of_reads (Method.reads_fail _))
  apply Writes.lift_bind
  intro nonce front
  apply Writes.lift_bind
  intro ct back
  apply Writes.lift_bind
  intro pt decrypted
  exact Writes.writeFile rfl

theorem openFor_ok {args : Args} {disk after : Disk} {inp outp : Str} {v : AegisVault}
    (done : openFor crates args disk = (.ok (inp, outp, v), after)) : after = disk ∧
      ∃ pass file, FileFlags args pass file inp outp ∧
      openVault crates file pass disk = (.ok v, disk) := by
  obtain ⟨pass, passGiven, rest⟩ := (req_bind_eq_ok_iff _ _ _ _).mp done
  obtain ⟨file, fileGiven, rest⟩ := (req_bind_eq_ok_iff _ _ _ _).mp rest
  obtain ⟨inp, inpGiven, rest⟩ := (req_bind_eq_ok_iff _ _ _ _).mp rest
  obtain ⟨outp, outGiven, rest⟩ := (req_bind_eq_ok_iff _ _ _ _).mp rest
  obtain ⟨v, opened, rest⟩ := (openVault_bind_eq_ok_iff _ _ _ _ _).mp rest
  cases rest
  exact ⟨rfl, pass, file, ⟨passGiven, fileGiven, inpGiven, outGiven⟩, opened⟩

theorem openFor_reads : (openFor crates args).Reads := by
  apply (req_reads args _).bind
  intro pass
  apply (req_reads args _).bind
  intro file
  apply (req_reads args _).bind
  intro inp
  apply (req_reads args _).bind
  intro outp
  apply (openVault_reads crates file pass).bind
  intro v
  exact Method.reads_pure _

theorem addCommand_writes : Writes (fun path _ => args (ascii "f") = some path)
    (addCommand crates args draws) := by
  rw [addCommand_eq]
  apply Writes.bind (addRead_reads args)
  intro disk held read
  apply (addCommit_writes crates draws held).imp
  rintro path bytes ⟨atFile, _⟩
  rw [atFile]
  exact (addRead_ok read).2.2.2.1

theorem sealCommand_writes : Writes (fun path _ => args (ascii "o") = some path)
    (sealCommand crates args draws) := by
  rw [← sealTask_exec, sealTask, Program.exec_bind, Program.exec_atomic]
  apply Writes.bind (openFor_reads crates args)
  rintro disk ⟨inp, outp, v⟩ opened
  obtain ⟨_, pass, file, flags, _⟩ := openFor_ok crates opened
  rw [Program.exec_bind, Program.exec_atomic]
  apply Writes.bind (readFile_reads inp)
  intro disk data read
  apply (sealWrite_writes crates draws outp v data).imp
  rintro path bytes ⟨atOut, _⟩
  rw [atOut]
  exact flags.outp.1

theorem openCommand_writes : Writes (fun path _ => args (ascii "o") = some path)
    (openCommand crates args) := by
  rw [← openTask_exec, openTask, Program.exec_bind, Program.exec_atomic]
  apply Writes.bind (openFor_reads crates args)
  rintro disk ⟨inp, outp, v⟩ opened
  obtain ⟨_, pass, file, flags, _⟩ := openFor_ok crates opened
  rw [Program.exec_bind, Program.exec_atomic]
  apply Writes.bind (readFile_reads inp)
  intro disk blob read
  apply (openWrite_writes crates outp v blob).imp
  intro path bytes atOut
  rw [atOut]
  exact flags.outp.1

end

def targetOf (argv : List Str) : Option Str :=
  match parseArgs argv with
  | .ok (command, args) => target command args
  | _ => none

theorem dispatch_writes (crates : Crates) (command : Str) (args : Args) (draws : Draws) :
    Writes (fun path _ => target command args = some path)
      (dispatch crates command args draws) := by
  unfold dispatch
  split
  next isInit => exact isInit ▸ initCommand_writes crates args draws
  split
  next isAdd => exact isAdd ▸ addCommand_writes crates args draws
  split
  next isSeal => exact isSeal ▸ sealCommand_writes crates args draws
  split
  next isOpen => exact isOpen ▸ openCommand_writes crates args
  split
  · exact Writes.of_reads (verifyCommand_reads crates args)
  · exact Writes.of_reads (Method.reads_fail _)

theorem main_writes (crates : Crates) (draws : Draws) (argv : List Str) :
    Writes (fun path _ => targetOf argv = some path) (main crates draws argv) := by
  unfold main
  apply Writes.lift_bind
  intro answer parsed
  apply (dispatch_writes crates answer.1 answer.2 draws).imp
  intro path bytes aimed
  rw [targetOf, parsed]
  exact aimed

end SoteriaAegis.Cli
