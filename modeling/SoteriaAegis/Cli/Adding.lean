import SoteriaAegis.Cli.Sessions
import SoteriaAegis.Vault.Calls

/-! An `add` process in two steps: it reads the vault file, and writes it back with one slot
more. In between it holds a copy of its own, which the file may no longer be equal to. -/

namespace SoteriaAegis.Cli
open Rust Crypto Slots Vault

structure Held where
  pass : Str
  newp : Str
  file : Str
  slotBytes : List UInt8
  salt : U8Array 32
  deriving DecidableEq

def addRead (args : Args) : Process Held := do
  let pass ← req args (ascii "p")
  let newp ← req args (ascii "n")
  let file ← req args (ascii "f")
  let (slotBytes, salt) ← readVault file
  return ⟨pass, newp, file, slotBytes, salt⟩

variable (crates : Crates)

def addCompute (held : Held) (draws : Draws) : Outcome Failure (List UInt8 × U8Array 32) := do
  let v ← Outcome.expect (AegisVault.unlock crates (ascii "ignored") MASTER_SALT MEM_KIB ITERS)
  let (_, v) ← ((AegisVault.openFromSlots crates held.slotBytes held.salt held.pass).on v).mapErr .cannotOpenVault
  let (_, v) ← ((AegisVault.addSlot crates held.newp draws.table).on v).mapErr .addSlotFailed
  let bytes ← Outcome.expectSome (v.slotsToBytes crates)
  let salt ← Outcome.expectSome v.slotsHeaderSalt
  return (bytes, salt)

def addCommit (held : Held) (draws : Draws) : Process Unit := do
  let (bytes, salt) ← Method.lift (addCompute crates held draws)
  writeVault held.file bytes salt

theorem addCommand_eq (args : Args) (draws : Draws) :
    addCommand crates args draws = (addRead args >>= fun held => addCommit crates held draws) := by
  unfold addCommand addRead addCommit addCompute openVault
  simp only [Method.bind_assoc, Method.lift_bind]
  rfl

theorem addRead_reads (args : Args) : (addRead args).Reads := by
  apply (req_reads args _).bind
  intro pass
  apply (req_reads args _).bind
  intro newp
  apply (req_reads args _).bind
  intro file
  apply (readVault_reads file).bind
  intro stored
  exact Method.reads_pure _

theorem addCommit_atomic (held : Held) (draws : Draws) : (addCommit crates held draws).Atomic := by
  apply (Method.reads_lift _).bind_atomic
  intro stored
  exact writeFile_atomic _ _

variable {crates} in
theorem addCommit_cases {held : Held} {draws : Draws} {disk after : Disk} {result : Outcome Failure Unit}
    (ran : addCommit crates held draws disk = (result, after)) :
    (∃ bytes salt, result = .ok () ∧ addCompute crates held draws = .ok (bytes, salt) ∧
      disk.refusals held.file = none ∧ after = disk.write held.file (vaultFile bytes salt)) ∨
    (result ≠ .ok () ∧ after = disk) := by
  by_cases done : result = .ok ()
  · subst done
    obtain ⟨⟨bytes, salt⟩, computed, written⟩ := (Method.lift_bind_eq_ok_iff _ _ _ _ _).mp ran
    obtain ⟨writable, rfl⟩ := (writeFile_eq_ok_iff _ _ _ _).mp written
    exact Or.inl ⟨bytes, salt, rfl, computed, writable, rfl⟩
  · have atomic := addCommit_atomic crates held draws disk
    rw [ran] at atomic
    rcases atomic with ⟨_, succeeded⟩ | unchanged
    · exact absurd succeeded done
    · exact Or.inr ⟨done, unchanged⟩

theorem addRead_ok {args : Args} {disk after : Disk} {held : Held} (done : addRead args disk = (.ok held, after)) :
    after = disk ∧ args (ascii "p") = some held.pass ∧ args (ascii "n") = some held.newp ∧
      args (ascii "f") = some held.file ∧ disk.files held.file = .ok (vaultFile held.slotBytes held.salt) := by
  obtain ⟨pass, passGiven, rest⟩ := (req_bind_eq_ok_iff _ _ _ _).mp done
  obtain ⟨newp, newpGiven, rest⟩ := (req_bind_eq_ok_iff _ _ _ _).mp rest
  obtain ⟨file, fileGiven, rest⟩ := (req_bind_eq_ok_iff _ _ _ _).mp rest
  obtain ⟨⟨slotBytes, salt⟩, read, rest⟩ := ((readVault_reads file).bind_eq_ok_iff _ _ _).mp rest
  cases rest
  exact ⟨rfl, passGiven.1, newpGiven.1, fileGiven.1, ((readVault_eq_ok_iff _ _ _ _ _).mp read).1⟩

variable {crates} {file pass : Str} {disk after : Disk} {table : KeySlotTable}

theorem addCompute_ok {held : Held} {draws : Draws} {bytes : List UInt8} {salt : U8Array 32}
    (done : addCompute crates held draws = .ok (bytes, salt)) :
    ∃ table raw slot, AegisVault.Recovered crates held.slotBytes held.salt held.pass table raw ∧
      table.slots.length < MAX_SLOTS ∧ KeySlot.create crates raw held.newp 64 3 draws.table.slot = .ok slot ∧
      bytes = KeySlotTable.toBytes crates { table with slots := table.slots ++ [slot] } ∧
      salt = table.headerSalt := by
  obtain ⟨ignored, _, rest⟩ := (Outcome.bind_eq_ok_iff _ _ _).mp done
  obtain ⟨⟨_, v⟩, opening, rest⟩ := (Outcome.bind_eq_ok_iff _ _ _).mp rest
  obtain ⟨⟨idx, v'⟩, adding, rest⟩ := (Outcome.bind_eq_ok_iff _ _ _).mp rest
  rw [Outcome.mapErr_eq_ok_iff, Method.on_eq_ok_iff] at opening adding
  obtain ⟨table, raw, hierarchy, recovered, _, rfl⟩ := AegisVault.openFromSlots_eq_ok_iff.mp opening
  obtain ⟨found, master, added⟩ := AegisVault.addSlot_ok adding
  rcases added with ⟨_, slot, same, room, _, created, rfl⟩ | ⟨_, empty, _⟩
  · cases same
    cases rest
    rw [← AegisKey.new32_injective master] at created
    exact ⟨table, raw, slot, recovered, room, created, rfl, rfl⟩
  · cases empty

theorem storedTable_write (small : table.slots.length < 256) :
    storedTable crates file (disk.write file (vaultFile (table.toBytes crates) table.headerSalt)) = some table :=
  storedTable_of_file small (Disk.write_same _ _ _)

theorem addCompute_unlocked {held : Held} {draws : Draws} {answer : List UInt8 × U8Array 32}
    (done : addCompute crates held draws = .ok answer) :
    ∃ ignored, AegisVault.unlock crates (ascii "ignored") MASTER_SALT MEM_KIB ITERS = .ok ignored := by
  obtain ⟨ignored, unlocked, _⟩ := (Outcome.bind_eq_ok_iff _ _ _).mp done
  exact ⟨ignored, (Outcome.expect_eq_ok_iff _ _).mp unlocked⟩

theorem addCompute_stored {held : Held} {draws : Draws} {bytes : List UInt8} {salt : U8Array 32}
    (done : addCompute crates held draws = .ok (bytes, salt)) :
    ∃ table raw slot, AegisVault.Recovered crates held.slotBytes held.salt held.pass table raw ∧
      table.slots.length < MAX_SLOTS ∧ KeySlot.create crates raw held.newp 64 3 draws.table.slot = .ok slot ∧
      ∀ disk : Disk, storedTable crates held.file (disk.write held.file (vaultFile bytes salt)) =
        some { table with slots := table.slots ++ [slot] } := by
  obtain ⟨table, raw, slot, recovered, room, created, rfl, rfl⟩ := addCompute_ok done
  exact ⟨table, raw, slot, recovered, room, created, fun disk => storedTable_write (table.append_countable room slot)⟩

theorem storedTable_write_other {path : Str} (differ : file ≠ path) {bytes : List UInt8} :
    storedTable crates file (disk.write path bytes) = storedTable crates file disk := by
  apply Option.ext
  intro found
  rw [storedTable_eq_some_iff, storedTable_eq_some_iff, Disk.write_other disk differ]

theorem openVault_stored {v : AegisVault} (opened : openVault crates file pass disk = (.ok v, after)) :
    after = disk ∧ ∃ table raw idx, storedTable crates file disk = some table ∧
      table.unsealWith crates pass = .ok (idx, AegisKey.new32 raw) ∧ volumeVerifier crates raw = table.verifier ∧
      KeyHierarchy.fromMaster crates raw.val = .ok v.hierarchy ∧ v = ⟨AegisKey.new32 raw, v.hierarchy, some table⟩ ∧
      ∃ ignored, AegisVault.unlock crates (ascii "ignored") MASTER_SALT MEM_KIB ITERS = .ok ignored := by
  obtain ⟨same, slotBytes, salt, ignored, content, unlocked, opening⟩ := (openVault_eq_ok_iff crates _ _ _).mp opened
  obtain ⟨table, raw, hierarchy, recovered, derived, rfl⟩ := AegisVault.openFromSlots_eq_ok_iff.mp opening
  obtain ⟨idx, unsealed⟩ := recovered.opened
  exact ⟨same, table, raw, idx, storedTable_eq_some_iff.mpr ⟨slotBytes, salt, content, recovered.read⟩, unsealed,
    recovered.checked, derived, rfl, ignored, unlocked⟩

theorem openVault_of_stored (stored : storedTable crates file disk = some table) {ignored : AegisVault}
    (unlocked : AegisVault.unlock crates (ascii "ignored") MASTER_SALT MEM_KIB ITERS = .ok ignored)
    {raw : U8Array MASTER_LEN} {idx : Nat} (opened : table.unsealWith crates pass = .ok (idx, AegisKey.new32 raw))
    (checked : volumeVerifier crates raw = table.verifier) {hierarchy : KeyHierarchy}
    (derived : KeyHierarchy.fromMaster crates raw.val = .ok hierarchy) :
    openVault crates file pass disk = (.ok ⟨AegisKey.new32 raw, hierarchy, some table⟩, disk) := by
  obtain ⟨slotBytes, salt, content, read⟩ := storedTable_eq_some_iff.mp stored
  apply (openVault_eq_ok_iff crates _ _ _).mpr
  exact ⟨rfl, slotBytes, salt, ignored, content, unlocked,
    AegisVault.openFromSlots_eq_ok_iff.mpr ⟨table, raw, hierarchy, ⟨read, ⟨idx, opened⟩, checked⟩, derived, rfl⟩⟩

/-- The same table with more slots behind its own. -/
structure Extends (first last : KeySlotTable) : Prop where
  headerSalt : last.headerSalt = first.headerSalt
  verifier : last.verifier = first.verifier
  slots : first.slots <+: last.slots

namespace Extends

theorem refl (table : KeySlotTable) : Extends table table := ⟨rfl, rfl, List.prefix_rfl⟩

theorem append {first last : KeySlotTable} (extends_last : Extends first last) (slot : KeySlot) :
    Extends first { last with slots := last.slots ++ [slot] } :=
  ⟨extends_last.headerSalt, extends_last.verifier, extends_last.slots.trans (List.prefix_append _ _)⟩

theorem unsealWith {first last : KeySlotTable} (extends_last : Extends first last) {idx : Nat} {master : AegisKey}
    (opened : first.unsealWith crates pass = .ok (idx, master)) : last.unsealWith crates pass = .ok (idx, master) := by
  obtain ⟨others, joined⟩ := extends_last.slots
  obtain ⟨slot, found, enabled, unsealed, before⟩ := (KeySlotTable.unsealWith_eq_ok_iff crates _ _ _ _).mp opened
  have inside := (List.getElem?_eq_some_iff.mp found).1
  have same : ∀ seat ≤ idx, last.slots[seat]? = first.slots[seat]? := by
    intro seat early
    rw [← joined, List.getElem?_append_left (by omega)]
  refine (KeySlotTable.unsealWith_eq_ok_iff crates _ _ _ _).mpr
    ⟨slot, (same idx (Nat.le_refl _)).trans found, enabled, unsealed, ?_⟩
  intro earlier less other at_earlier
  rw [same earlier (Nat.le_of_lt less)] at at_earlier
  exact before earlier less other at_earlier

/-- Whoever opens a file opens it with more slots behind, and gets the same keys. -/
theorem openVault {first last : KeySlotTable} (extends_last : Extends first last)
    (stored : storedTable crates file disk = some first) (storedLast : storedTable crates file after = some last)
    {v : AegisVault} (opened : openVault crates file pass disk = (.ok v, disk)) :
    Cli.openVault crates file pass after = (.ok ⟨v.master, v.hierarchy, some last⟩, after) := by
  obtain ⟨_, table, raw, idx, found, unsealed, checked, derived, same, ignored, unlocked⟩ := openVault_stored opened
  rw [stored] at found
  cases found
  rw [same]
  exact openVault_of_stored storedLast unlocked (extends_last.unsealWith unsealed)
    (checked.trans extends_last.verifier.symm) derived

end Extends

/-- A slot written behind the others costs nobody the access to a file, be it this one or another. -/
theorem openVault_appended {path : Str} (stored : storedTable crates path disk = some table)
    (room : table.slots.length < MAX_SLOTS) (slot : KeySlot) {bytes : List UInt8}
    (written : bytes =
      vaultFile (KeySlotTable.toBytes crates { table with slots := table.slots ++ [slot] }) table.headerSalt)
    {v : AegisVault} (opened : openVault crates file pass disk = (.ok v, disk)) :
    ∃ v', openVault crates file pass (disk.write path bytes) = (.ok v', disk.write path bytes) ∧
      v'.master = v.master := by
  obtain ⟨_, first, _, _, storedFirst, _⟩ := openVault_stored opened
  by_cases same : file = path
  · subst same
    rw [stored, Option.some.injEq] at storedFirst
    subst storedFirst
    subst written
    exact ⟨_, ((Extends.refl table).append slot).openVault stored
      (storedTable_write (table.append_countable room slot)) opened, rfl⟩
  · have storedStill : storedTable crates file (disk.write path bytes) = some first :=
      (storedTable_write_other same).trans storedFirst
    exact ⟨_, (Extends.refl first).openVault storedFirst storedStill opened, rfl⟩

end SoteriaAegis.Cli
