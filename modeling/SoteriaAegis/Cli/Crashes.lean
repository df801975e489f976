import SoteriaAegis.Cli.Serving
import SoteriaAegis.Vault.Errors

/-! When a process panics. All indices, slices, length checks and `expect`s of the commands hold,
but for those on the way to an opened vault. -/

namespace SoteriaAegis.Cli
open Rust Crypto Slots Vault Access

section
variable {α β : Type} {disk : Disk}

end

variable {crates : Crates} {disk : Disk} {args : Args} {draws : Draws} {file pass : Str}

theorem writeFile_ne_panic (path : Str) (bytes : List UInt8) :
    (writeFile path bytes disk).1 ≠ .panic := by
  rw [writeFile, Method.self_bind]
  cases disk.refusals path with
  | none => exact Outcome.ok_ne_panic _
  | some error => exact Outcome.err_ne_panic _

theorem mapErr_panics_iff {ε δ α : Type} {convert : ε → δ} {result : Outcome ε α} :
    Outcome.mapErr convert result = .panic ↔ result = .panic := by
  cases result with
  | ok value => simp [Outcome.mapErr]
  | err error => simp [Outcome.mapErr]
  | panic => simp [Outcome.mapErr]

theorem on_panics_iff {σ ε α : Type} {call : Method σ ε α} {receiver : σ} :
    call.on receiver = .panic ↔ (call receiver).1 = .panic := by
  unfold Method.on
  cases call receiver with
  | mk result after =>
    cases result with
    | ok value => simp
    | err error => simp
    | panic => simp

theorem openVault_coherent {v : AegisVault} {after : Disk}
    (opened : openVault crates file pass disk = (.ok v, after)) :
    ∃ raw, Coherent crates raw v := by
  obtain ⟨_, slotBytes, salt, ignored, _, _, opening⟩ :=
    (openVault_eq_ok_iff crates _ _ _).mp opened
  obtain ⟨table, raw, hierarchy, recovered, derived, rfl⟩ :=
    AegisVault.openFromSlots_eq_ok_iff.mp opening
  exact ⟨raw, Coherent.of_recovered recovered derived⟩

section
variable {α : Type} {next : AegisVault → Process α}

end

theorem savedVault_ne_panic {v : AegisVault} {table : KeySlotTable} (held : v.slots = some table)
    (path : Str) : ((Method.lift (savedVault crates v) >>= writeFile path) disk).1 ≠ .panic := by
  unfold savedVault AegisVault.slotsToBytes AegisVault.slotsHeaderSalt
  rw [held]
  exact writeFile_ne_panic path _

section
variable (expands : crates.ExpandsShort)
include expands

theorem create_ne_panic (tags : crates.AppendsTag) (pass out : Str) :
    (serve crates draws (.create pass out) disk).1 ≠ .panic := by
  rw [serve_create]
  apply Method.lift_bind_ne_panic
    (Outcome.mapErr_ne_panic (AegisVault.unlock_ne_panic expands _ _ _ _))
  intro v unlocked
  rw [Outcome.mapErr_eq_ok_iff] at unlocked
  obtain ⟨raw, _, made⟩ := (AegisVault.unlock_eq_ok_iff crates _ _ _ _ _).mp unlocked
  have coherent := Coherent.of_fromMasterKey made
  apply Method.lift_bind_ne_panic
  · rw [ne_eq, mapErr_panics_iff, on_panics_iff]
    exact coherent.sealSlots_ne_panic tags pass draws.table
  rintro ⟨done, v'⟩ sealing
  rw [Outcome.mapErr_eq_ok_iff, Method.on_eq_ok_iff] at sealing
  obtain ⟨_, table, _, _, rfl⟩ := AegisVault.sealSlots_ok sealing
  exact savedVault_ne_panic rfl out

end

end SoteriaAegis.Cli
