import SoteriaAegis.Cli.Adding
import SoteriaAegis.Cli.EndToEnd

/-! An `add` process that is stopped on its way. The vault file is written in place: it is first
truncated and then filled again, and a process stopped in between leaves a file that nobody
opens. -/

namespace SoteriaAegis.Cli
open Rust Crypto Slots Vault

/-- Before `fs::write`, or in it, when the file is truncated and some of the chunks are appended. -/
inductive Stop where
  | beforeWrite
  | insideWrite (chunks : List (List UInt8)) (appended : Nat)

def Stop.Torn : Stop → Prop
  | beforeWrite => False
  | insideWrite chunks appended => (chunks.take appended).flatten ≠ chunks.flatten

/-- The points at which `add` can stop, each with the disk left behind. -/
inductive AddStops (crates : Crates) (args : Args) (draws : Draws) (disk : Disk) : Stop → Disk → Prop
  | beforeWrite : AddStops crates args draws disk .beforeWrite disk
  | insideWrite {held : Held} {bytes : List UInt8} {salt : U8Array 32} {chunks : List (List UInt8)} {appended : Nat}
      (read : addRead args disk = (.ok held, disk)) (computed : addCompute crates held draws = .ok (bytes, salt))
      (writable : disk.refusals held.file = none) (joined : chunks.flatten = vaultFile bytes salt) :
      AddStops crates args draws disk (.insideWrite chunks appended)
        (disk.write held.file (chunks.take appended).flatten)

variable {crates : Crates} {args : Args} {draws : Draws} {disk left : Disk} {stop : Stop}

/-- A process that is not stopped ends at one of these points too: with an error before the
write, and else behind it. -/
theorem addCommand_stops {result : Outcome Failure Unit} (ran : addCommand crates args draws disk = (result, left)) :
    ∃ stop, AddStops crates args draws disk stop left ∧ ¬stop.Torn ∧ (result ≠ .ok () → left = disk) := by
  rw [addCommand_eq, Method.bind_apply] at ran
  have unchanged := addRead_reads args disk
  cases read : addRead args disk with
  | mk answer after =>
    rw [read] at ran unchanged
    subst unchanged
    cases answer with
    | ok held =>
      rcases addCommit_cases (ran : addCommit crates held draws after = (result, left)) with
        ⟨bytes, salt, rfl, computed, writable, rfl⟩ | ⟨_, rfl⟩
      · have whole : [vaultFile bytes salt].flatten = vaultFile bytes salt := List.flatten_singleton
        have stops : AddStops crates args draws after (.insideWrite [vaultFile bytes salt] 1)
            (after.write held.file ([vaultFile bytes salt].take 1).flatten) := .insideWrite read computed writable whole
        have front : [vaultFile bytes salt].take 1 = [vaultFile bytes salt] := rfl
        rw [front, whole] at stops
        exact ⟨_, stops, fun torn => torn rfl, fun failed => absurd rfl failed⟩
      · exact ⟨.beforeWrite, AddStops.beforeWrite, id, fun _ => rfl⟩
    | err failure =>
      cases ran
      exact ⟨.beforeWrite, AddStops.beforeWrite, id, fun _ => rfl⟩
    | panic =>
      cases ran
      exact ⟨.beforeWrite, AddStops.beforeWrite, id, fun _ => rfl⟩

/-- A table cut short at the end is not accepted: the slot count calls for the bytes cut off. -/
theorem fromBytes_cut {table found : KeySlotTable} (small : table.slots.length < 256) {data : List UInt8}
    (cut : data <+: table.toBytes crates) (shorter : data.length < (table.toBytes crates).length)
    (salt : U8Array 32) : KeySlotTable.fromBytes crates data salt ≠ .ok found := by
  intro accepted
  obtain ⟨_, few, extra, shape⟩ := (KeySlotTable.fromBytes_eq_ok_iff crates _ _ _).mp accepted
  rw [List.append_assoc] at shape
  obtain ⟨count, counted, same⟩ := KeySlotTable.countByte table
    (crates.blake3KeyedHash table.headerSalt table.bodyBytes).val small
  obtain ⟨foundCount, foundCounted, foundSame⟩ := KeySlotTable.countByte found
    (extra ++ (crates.blake3KeyedHash salt (found.bodyBytes ++ extra)).val) few
  rw [← shape] at foundCounted
  have inside := (List.getElem?_eq_some_iff.mp foundCounted).1
  have byte : data[5]? = (table.toBytes crates)[5]? := by
    obtain ⟨rest, joined⟩ := cut
    rw [← joined, List.getElem?_append_left inside]
  rw [foundCounted, KeySlotTable.toBytes, counted, Option.some.injEq] at byte
  have slots : found.slots.length = table.slots.length :=
    calc
      found.slots.length = foundCount.toNat := foundSame.symm
      _ = count.toNat := by rw [byte]
      _ = table.slots.length := same
  have body := congrArg List.length shape
  rw [List.length_append, List.length_append, KeySlotTable.bodyBytes_length, U8Array.length_val] at body
  rw [KeySlotTable.toBytes, List.length_append, KeySlotTable.bodyBytes_length, U8Array.length_val] at shorter
  omega

theorem openVault_cut {file : Str} {table : KeySlotTable} (small : table.slots.length < 256) {bytes : List UInt8}
    (content : left.files file = .ok bytes) (cut : bytes <+: vaultFile (table.toBytes crates) table.headerSalt)
    (shorter : bytes ≠ vaultFile (table.toBytes crates) table.headerSalt) (pass : Str) (v : AegisVault) :
    openVault crates file pass left ≠ (.ok v, left) := by
  intro opened
  obtain ⟨_, found, _, _, stored, _⟩ := openVault_stored opened
  obtain ⟨slotBytes, salt, same, parsed⟩ := storedTable_eq_some_iff.mp stored
  rw [content, Except.ok.injEq] at same
  have tail := ((vaultFile_iff _ slotBytes salt).mp same).2.2.2.2
  have whole := ((vaultFile_iff _ (table.toBytes crates) table.headerSalt).mp rfl).2.2.2.2
  have front := cut.drop 38
  rw [tail, whole] at front
  have less : bytes.length < (vaultFile (table.toBytes crates) table.headerSalt).length :=
    Nat.lt_of_le_of_ne cut.length_le fun equal => shorter (cut.eq_of_length equal)
  rw [same, vaultFile_length, vaultFile_length] at less
  exact fromBytes_cut small front (Nat.lt_of_add_lt_add_left less) salt parsed

/-- A process that stopped before the write, or with the last byte written, costs nobody the
access to a file. One that stopped in between costs everybody the access to its vault file. -/
theorem interrupted_add (crates : Crates) (args : Args) (draws : Draws) (disk left : Disk) (stop : Stop)
    (stopped : AddStops crates args draws disk stop left) :
    (¬stop.Torn → ∀ file pass v, openVault crates file pass disk = (.ok v, disk) →
      ∃ v', openVault crates file pass left = (.ok v', left) ∧ v'.master = v.master) ∧
    (stop.Torn → ∀ file, args (ascii "f") = some file → ∀ pass v, openVault crates file pass left ≠ (.ok v, left)) := by
  cases stopped with
  | beforeWrite => exact ⟨fun _ file pass v opened => ⟨v, opened, rfl⟩, fun torn => torn.elim⟩
  | @insideWrite held bytes salt chunks appended read computed writable joined =>
    obtain ⟨_, _, _, fileGiven, content⟩ := addRead_ok read
    obtain ⟨table, raw, slot, recovered, room, created, rfl, rfl⟩ := addCompute_ok computed
    have stored := storedTable_eq_some_iff.mpr ⟨held.slotBytes, held.salt, content, recovered.read⟩
    have small := table.append_countable room slot
    constructor
    · intro whole file pass v opened
      have written := (not_not.mp whole).trans joined
      exact openVault_appended stored room slot written opened
    · intro torn file given pass v
      rw [fileGiven, Option.some.injEq] at given
      subst given
      have front : (chunks.take appended).flatten <+: chunks.flatten := by
        refine ⟨(chunks.drop appended).flatten, ?_⟩
        rw [← List.flatten_append, List.take_append_drop]
      rw [joined] at front
      exact openVault_cut small (Disk.write_same _ _ _) front (joined ▸ torn) pass v

def aliceVault : Disk := (initAlice.exec checksumCrates letterDisk).2

/-- Alice keeps her access when nothing has been written, and when all is. With five bytes written
nobody has it. -/
theorem interrupted_add_points : ∃ rest v torn whole v',
    openVault checksumCrates (ascii "vault") (ascii "alice") aliceVault = (.ok v, aliceVault) ∧
    AddStops checksumCrates addBob.args addBob.draws aliceVault .beforeWrite aliceVault ∧
    AddStops checksumCrates addBob.args addBob.draws aliceVault (.insideWrite [ascii "AEGIS", rest] 1) torn ∧
    torn.files (ascii "vault") = .ok (ascii "AEGIS") ∧
    (∀ pass w, openVault checksumCrates (ascii "vault") pass torn ≠ (.ok w, torn)) ∧
    AddStops checksumCrates addBob.args addBob.draws aliceVault (.insideWrite [ascii "AEGIS", rest] 2) whole ∧
    openVault checksumCrates (ascii "vault") (ascii "alice") whole = (.ok v', whole) ∧ v'.master = v.master := by
  have opens : (openVault checksumCrates (ascii "vault") (ascii "alice") aliceVault).1.toOption.isSome = true := by
    decide +kernel
  have checked : ((addRead addBob.args aliceVault).1.toOption.any fun held =>
      (addCompute checksumCrates held addBob.draws).toOption.any fun written =>
        held.file = ascii "vault" ∧ aliceVault.refusals held.file = none ∧
          (vaultFile written.1 written.2).take 5 = ascii "AEGIS") = true := by
    decide +kernel
  obtain ⟨v, opens⟩ := Outcome.ok_of_isSome opens
  obtain ⟨held, read, checked⟩ := Outcome.ok_of_any checked
  obtain ⟨⟨slotBytes, salt⟩, computed, checked⟩ := Outcome.ok_of_any checked
  obtain ⟨target, writable, magic⟩ := of_decide_eq_true checked
  have opened := (openVault_reads checksumCrates _ _).eq_of_fst opens
  have reads := (addRead_reads addBob.args).eq_of_fst read
  let rest := (vaultFile slotBytes salt).drop 5
  have joined : [ascii "AEGIS", rest].flatten = vaultFile slotBytes salt := by
    rw [← magic, List.flatten_cons, List.flatten_singleton, List.take_append_drop]
  have stops : ∀ appended, AddStops checksumCrates addBob.args addBob.draws aliceVault
      (.insideWrite [ascii "AEGIS", rest] appended)
      (aliceVault.write (ascii "vault") ([ascii "AEGIS", rest].take appended).flatten) :=
    fun _ => target ▸ .insideWrite reads computed writable joined
  have torn : (Stop.insideWrite [ascii "AEGIS", rest] 1).Torn := by
    intro same
    have lengths := congrArg List.length (same.trans joined)
    rw [vaultFile_length] at lengths
    change 5 = _ at lengths
    omega
  obtain ⟨v', openedAfter, same⟩ :=
    (interrupted_add checksumCrates _ _ _ _ _ (stops 2)).1 (fun torn => torn rfl) (ascii "vault")
      (ascii "alice") v opened
  refine ⟨rest, v, _, _, v', opened, .beforeWrite, stops 1, Disk.write_same _ _ _, ?_, stops 2,
    openedAfter, same⟩
  exact (interrupted_add checksumCrates _ _ _ _ _ (stops 1)).2 torn (ascii "vault") rfl

theorem truncated_locks_out : ∃ v bytes left, initAlice.exec checksumCrates letterDisk = (.ok (), aliceVault) ∧
    openVault checksumCrates (ascii "vault") (ascii "alice") aliceVault = (.ok v, aliceVault) ∧
    AddStops checksumCrates addBob.args addBob.draws aliceVault (.insideWrite [bytes] 0) left ∧
    (openVault checksumCrates (ascii "vault") (ascii "alice") left).1 = .err .vaultTooShort := by
  have initialized : (initAlice.exec checksumCrates letterDisk).1 = .ok () := by decide +kernel
  have opens : (openVault checksumCrates (ascii "vault") (ascii "alice") aliceVault).1.toOption.isSome = true := by
    decide +kernel
  have checked : ((addRead addBob.args aliceVault).1.toOption.any fun held =>
      held.file = ascii "vault" ∧ aliceVault.refusals held.file = none ∧
        (addCompute checksumCrates held addBob.draws).toOption.isSome) = true := by
    decide +kernel
  obtain ⟨v, opens⟩ := Outcome.ok_of_isSome opens
  obtain ⟨held, read, checked⟩ := Outcome.ok_of_any checked
  obtain ⟨target, writable, computed⟩ := of_decide_eq_true checked
  obtain ⟨⟨bytes, salt⟩, written⟩ := Outcome.ok_of_isSome computed
  have opened := (openVault_reads checksumCrates _ _).eq_of_fst opens
  have reads := (addRead_reads addBob.args).eq_of_fst read
  refine ⟨v, vaultFile bytes salt, aliceVault.write (ascii "vault") [], Method.eq_of_fst _ initialized, opened, ?_, ?_⟩
  · rw [← target]
    exact .insideWrite reads written writable List.flatten_singleton
  · decide +kernel

end SoteriaAegis.Cli
