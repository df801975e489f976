import SoteriaAegis.Cli.Accesses
import SoteriaAegis.Cli.Diagnosis
import SoteriaAegis.Cli.Interruption

/-! How a process ends that has the disk to itself, whatever the system answers it. It panics for
five reasons only, and a failure names its cause. A failing write is the one failure that changes a
file. -/

namespace SoteriaAegis.Cli
open Rust Crypto Slots Vault Access

variable {crates : Crates} {draws : Draws} {answers : Answers} {argv : List Str} {disk after : Disk}

/-- What is behind a failure, and what it leaves on the disk. -/
inductive Account (crates : Crates) (draws : Draws) (answers : Answers) (argv : List Str)
    (disk : Disk) : Failure → Disk → Prop where
  | usage (few : argv.length < 2) : Account crates draws answers argv disk .usage disk
  | reason {command : Str} {args : Args} {failure : Failure}
      (parsed : parseArgs argv = .ok (command, args))
      (reason : Reason crates draws disk command args failure) :
      Account crates draws answers argv disk failure disk
  | unread {wish : Request Str Str} {path error : Str} (asked : requestOf argv = some wish)
      (unread : Unread answers wish path error) :
      Account crates draws answers argv disk (.cannotRead path error) disk
  | torn {wish : Request Str Str} {path error : Str} {bytes part : List UInt8}
      (asked : requestOf argv = some wish) (named : outputOf wish = some path)
      (whole : main crates draws argv disk = (.ok (), disk.write path bytes))
      (cut : Cut answers.output error) (front : part <+: bytes) (proper : part ≠ bytes) :
      Account crates draws answers argv disk (.cannotWrite path error) (disk.write path part)

theorem main_account (expands : crates.ExpandsShort) {failure : Failure}
    (reported : main crates draws argv disk = (.err failure, after)) :
    Account crates draws answers argv disk failure after := by
  obtain ⟨rfl, ⟨rfl, few⟩ | ⟨command, args, parsed, reason⟩⟩ :=
    main_reports expands draws argv disk after failure reported
  · exact .usage few
  · exact .reason parsed reason

section
variable {wish : Request Str Str} {file : Str} (named : vaultOf wish = some file)
include named

end

section
variable (expands : crates.ExpandsShort) (tags : crates.AppendsTag)
include expands tags

end

/-- Whatever the system answers, a process that fails says what is the case. The disk is as it was,
unless a call of `write` failed: the file that was to be written then holds the front of the bytes
that would have been written. -/
theorem process_reports (expands : crates.ExpandsShort) (draws : Draws) (answers : Answers)
    (argv : List Str) (disk after : Disk) (failure : Failure)
    (reported : (process crates draws answers argv).exec disk = (.err failure, after)) :
    Account crates draws answers argv disk failure after := by
  rw [process_exec, Prod.mk.injEq] at reported
  obtain ⟨result, rfl⟩ := reported
  obtain ⟨failed, _⟩ := (answers.printed_eq_err_iff _ _).mp result
  cases unicode : argv.all isUnicode with
  | false =>
    rw [workTask_of_foreign unicode] at failed
    cases failed
  | true =>
    cases asked : requestOf argv with
    | none =>
      obtain ⟨found, refused, same⟩ := workTask_refused unicode asked
      rw [refused] at failed ⊢
      cases failed
      exact main_account expands same
    | some wish =>
      have strays := @workTask_strays crates draws answers argv disk unicode wish asked
      generalize (workTask crates draws answers argv).exec disk = found at strays failed
      generalize ends : main crates draws argv disk = ended at strays
      cases strays with
      | same => exact main_account expands (ends.trans (Prod.ext failed rfl))
      | unread _ unread =>
        cases failed
        exact .unread asked unread
      | torn named cut front proper =>
        cases failed
        exact .torn asked named ends cut front proper

/-- There is room on the device for five bytes of the vault with one more slot. -/
theorem process_reports_full : ∃ after,
    (process checksumCrates addBob.draws
      ⟨[], [], [.took 3, .interrupted, .took 2, .failed (ascii "no space")], true, true⟩
      addBob.argv).exec aliceVault =
      (.err (.cannotWrite (ascii "vault") (ascii "no space")), after) ∧
    (after.files (ascii "vault")).toOption = some (ascii "AEGIS") ∧
    Account checksumCrates addBob.draws
      ⟨[], [], [.took 3, .interrupted, .took 2, .failed (ascii "no space")], true, true⟩
      addBob.argv aliceVault (.cannotWrite (ascii "vault") (ascii "no space")) after := by
  have failed : ((process checksumCrates addBob.draws
      ⟨[], [], [.took 3, .interrupted, .took 2, .failed (ascii "no space")], true, true⟩
      addBob.argv).exec aliceVault).1 =
        .err (.cannotWrite (ascii "vault") (ascii "no space")) := by
    decide +kernel
  have reported := Method.eq_of_fst _ failed
  exact ⟨_, reported, by decide +kernel,
    process_reports checksumCrates_expandsShort _ _ _ _ _ _ reported⟩

end SoteriaAegis.Cli
