import SoteriaAegis.Cli.Accesses
import SoteriaAegis.Cli.Interleaving

/-! Processes of all commands on one disk, in any order of their calls, some of which fail. Each
changes the one file that it writes, from the front on. A file that one process alone writes holds
the front of what that process makes of the files it has read, whenever it is looked at. -/

namespace SoteriaAegis.Cli
open Rust Crypto Slots Vault Access

/-- What a read of the path can yield: anything, unless the others leave the file alone. -/
def Yields (quiet : Str → Prop) (start : Disk) (path : Str) (buf : List UInt8) : Prop :=
  quiet path → start.files path = .ok buf

def Unlocks (crates : Crates) (quiet : Str → Prop) (start : Disk) (file pass : Str)
    (v : AegisVault) : Prop :=
  ∃ buf, Yields quiet start file buf ∧ heldVault crates pass buf = .ok v

def Spares (target : Option Str) (disk after : Disk) : Prop :=
  after.refusals = disk.refusals ∧
    ∀ path, target ≠ some path → after.files path = disk.files path

def SameOn (quiet : Str → Prop) (disk after : Disk) : Prop :=
  ∀ path, quiet path → after.files path = disk.files path

/-- The file is as it was, or holds the front of something made. -/
def FrontOf (made : List UInt8 → Prop) (path : Str) (old : Except Str (List UInt8)) (disk : Disk) :
    Prop :=
  disk.files path = old ∨ ∃ bytes part, made bytes ∧ part <+: bytes ∧ disk.files path = .ok part

theorem SameOn.refl (quiet : Str → Prop) (disk : Disk) : SameOn quiet disk disk := fun _ _ => rfl

theorem SameOn.trans {quiet : Str → Prop} {one two three : Disk} (first : SameOn quiet one two)
    (second : SameOn quiet two three) : SameOn quiet one three :=
  fun path calm => (second path calm).trans (first path calm)

namespace Spares
variable {target : Option Str} {path : Str}

theorem refl (disk : Disk) : Spares target disk disk := ⟨rfl, fun _ _ => rfl⟩

theorem of_eq {disk after : Disk} (same : after = disk) : Spares target disk after := by
  rw [same]
  exact refl disk

theorem write (disk : Disk) (bytes : List UInt8) :
    Spares (some path) disk (disk.write path bytes) := by
  refine ⟨rfl, fun other differ => Disk.write_other disk ?_ bytes⟩
  intro same
  exact differ (congrArg some same.symm)

theorem writeAt (disk : Disk) (offset : Nat) (chunk : List UInt8) :
    Spares (some path) disk (disk.writeAt path offset chunk) := by
  unfold Disk.writeAt
  cases disk.files path with
  | ok content => exact write disk _
  | error error => exact refl disk

end Spares

section
variable {path : Str}

end

section
variable (crates : Crates) (draws : Draws) (answers : Answers)

end

section
variable {quiet : Str → Prop} {start disk : Disk} {made : List UInt8 → Prop} {path target : Str}
  {content buf : List UInt8}

theorem FrontOf.stable (calm : quiet target) {old : Except Str (List UInt8)}
    (front : FrontOf made target old disk) {met : Disk} (same : SameOn quiet disk met) :
    FrontOf made target old met := by
  unfold FrontOf
  rw [same target calm]
  exact front

def Begun (quiet : Str → Prop) (start : Disk) (path : Str) (buf : List UInt8) : Prop :=
  quiet path → ∃ content, start.files path = .ok content ∧ buf <+: content

theorem Begun.held {held : List UInt8} (begun : Begun quiet start path buf)
    (same : SameOn quiet start disk) (found : disk.files path = .ok held) (calm : quiet path) :
    start.files path = .ok held ∧ buf <+: held := by
  obtain ⟨content, begins, front⟩ := begun calm
  rw [same path calm, begins] at found
  cases found
  exact ⟨begins, front⟩

section
variable {keep : Disk → Prop} (keeps : ∀ disk, SameOn quiet start disk → keep disk)
include keeps

end

section
variable (calm : quiet target) {old : Except Str (List UInt8)}
include calm

end

end

variable {crates : Crates} {ι : Type} [DecidableEq ι]

def running (crates : Crates) (disk : Disk) (draws : ι → Draws) (answers : ι → Answers)
    (argv : ι → List Str) : Pool Disk Failure Unit ι :=
  ⟨disk, fun i => process crates (draws i) (answers i) (argv i)⟩

end SoteriaAegis.Cli
