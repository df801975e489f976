import SoteriaAegis.Slots.WellFormed

/-! Tampering with a stored table. The MAC key is the header salt, which is stored next to
the table, so whoever holds the file can recompute the trailer. -/

namespace SoteriaAegis.Slots
open Rust Crypto KeySlotTable
variable (crates : Crates)

/-- The metadata that the header MAC is there to protect. -/
def KeySlot.metadata (slot : KeySlot) : UInt8 × UInt32 × UInt32 × UInt8 :=
  (slot.kdfId, slot.mCost, slot.tCost, slot.flags)

structure SameMetadata (table forged : KeySlotTable) : Prop where
  slots : forged.slots.map KeySlot.metadata = table.slots.map KeySlot.metadata
  verifier : forged.verifier = table.verifier

/-- The metadata bytes of two inputs agree, at the places the first one's slot count gives. -/
def SameMetadataBytes (stored forged : List UInt8) : Prop :=
  ∃ slotCount ∈ stored[5]?, forged[5]? = some slotCount ∧
    (∀ i < slotCount.toNat, costsWindow forged i = costsWindow stored i ∧ flagsWindow forged i = flagsWindow stored i) ∧
    window forged (slotOffset slotCount.toNat) 32 = window stored (slotOffset slotCount.toNat) 32

theorem KeySlot.metadata_eq_iff (first second : KeySlot) :
    first.metadata = second.metadata ↔ costsBytes first = costsBytes second ∧ [first.flags] = [second.flags] := by
  constructor
  · intro same
    simp only [metadata, Prod.mk.injEq] at same
    obtain ⟨kdfId, mCost, tCost, flags⟩ := same
    simp only [costsBytes, kdfId, mCost, tCost, flags, and_self]
  · intro same
    obtain ⟨kdfId, mCost, tCost⟩ := costsBytes_inj same.1
    have flags := List.singleton_inj.mp same.2
    simp only [metadata, kdfId, mCost, tCost, flags]

theorem sameMetadata_iff (table forged : KeySlotTable) (behind after : List UInt8)
    (small : table.slots.length < 256) (forgedSmall : forged.slots.length < 256) :
    SameMetadata table forged ↔ SameMetadataBytes (table.bodyBytes ++ behind) (forged.bodyBytes ++ after) := by
  obtain ⟨count, counted, same⟩ := countByte table behind small
  obtain ⟨forgedCount, forgedCounted, forgedSame⟩ := countByte forged after forgedSmall
  simp only [SameMetadataBytes, counted, forgedCounted, Option.mem_def, Option.some.injEq, exists_eq_left', same]
  constructor
  · intro unchanged
    have lengths := congrArg List.length unchanged.slots
    rw [List.length_map, List.length_map] at lengths
    refine ⟨UInt8.toNat_inj.mp (by rw [same, forgedSame, lengths]), fun i inside => ?_, ?_⟩
    · have forgedInside : i < forged.slots.length := by rw [lengths]; exact inside
      have metadata : forged.slots[i].metadata = table.slots[i].metadata := by
        have entry := congrArg (fun entries => entries[i]?) unchanged.slots
        simpa only [List.getElem?_map, List.getElem?_eq_getElem inside, List.getElem?_eq_getElem forgedInside,
          Option.map_some, Option.some.injEq] using entry
      rw [costsWindow_eq _ _ i inside, costsWindow_eq _ _ i forgedInside,
        flagsWindow_eq _ _ i inside, flagsWindow_eq _ _ i forgedInside]
      exact (KeySlot.metadata_eq_iff _ _).mp metadata
    · rw [verifierWindow, ← lengths, verifierWindow, unchanged.verifier]
  · intro unchanged
    obtain ⟨counts, entries, verifier⟩ := unchanged
    have lengths : forged.slots.length = table.slots.length := by rw [← same, ← forgedSame, counts]
    refine ⟨List.ext_getElem (by rw [List.length_map, List.length_map, lengths]) fun i forgedInside inside => ?_, ?_⟩
    · rw [List.length_map] at forgedInside inside
      have entry := entries i inside
      rw [costsWindow_eq _ _ i inside, costsWindow_eq _ _ i forgedInside,
        flagsWindow_eq _ _ i inside, flagsWindow_eq _ _ i forgedInside] at entry
      simp only [List.getElem_map]
      exact (KeySlot.metadata_eq_iff _ _).mpr entry
    · rw [verifierWindow, ← lengths, verifierWindow] at verifier
      exact Subtype.ext verifier

theorem forgery_iff (table : KeySlotTable) (small : table.slots.length < 256) (forged : List UInt8) :
    (∀ read, fromBytes crates forged table.headerSalt = .ok read → SameMetadata table read) ↔
      (Acceptable crates forged table.headerSalt → SameMetadataBytes (table.toBytes crates) forged) := by
  have bytes : ∀ read, fromBytes crates forged table.headerSalt = .ok read →
      (SameMetadata table read ↔ SameMetadataBytes (table.toBytes crates) forged) := by
    intro read accepted
    obtain ⟨_, readSmall, extra, shape⟩ := (fromBytes_eq_ok_iff crates _ _ _).mp accepted
    rw [shape, List.append_assoc, toBytes]
    exact sameMetadata_iff table read _ _ small readSmall
  constructor
  · intro undetected acceptable
    obtain ⟨read, accepted⟩ := (fromBytes_isOk_iff crates _ _).mpr acceptable
    exact (bytes read accepted).mp (undetected read accepted)
  · intro unchanged read accepted
    exact (bytes read accepted).mpr (unchanged (acceptable_of_ok crates accepted))

def cheapened (table : KeySlotTable) : KeySlotTable :=
  { table with slots := table.slots.map fun slot => { slot with mCost := 8 } }

/-- A forger who knows the format: read the table, lower the costs, write it back. -/
def downgrade (stored : List UInt8) (headerSalt : U8Array 32) : List UInt8 :=
  match fromBytes crates stored headerSalt with
  | .ok table => (cheapened table).toBytes crates
  | _ => stored

theorem downgrade_read (table : KeySlotTable) (small : table.slots.length < 256) :
    fromBytes crates (downgrade crates (table.toBytes crates) table.headerSalt) table.headerSalt =
      .ok (cheapened table) := by
  have lowered : (cheapened table).slots.length < 256 := by
    rw [cheapened, List.length_map]
    exact small
  simp only [downgrade, fromBytes_toBytes crates table small]
  exact fromBytes_toBytes crates (cheapened table) lowered

structure FullCost (table : KeySlotTable) : Prop where
  inhabited : table.slots ≠ []
  costs : ∀ slot ∈ table.slots, slot.mCost = 64

namespace FullCost

theorem of_newInitial {master : U8Array MASTER_LEN} {passphrase : List UInt8} {draws : TableDraws}
    {table : KeySlotTable} (made : newInitial crates master passphrase draws = .ok table) : FullCost table := by
  obtain ⟨slot, created, rfl⟩ := (newInitial_eq_ok_iff crates _ _ _ _).mp made
  obtain ⟨_, shape⟩ := (KeySlot.create_eq_ok_iff crates _ _ _ _ _ _).mp created
  refine ⟨List.cons_ne_nil _ _, fun other member => ?_⟩
  rw [List.mem_singleton.mp member, shape]

theorem step {call : TableCall} {table next : KeySlotTable} (full : FullCost table)
    (stepped : call.step crates table = some next) : FullCost next := by
  rcases call.step_cases crates stepped with
    rfl | ⟨_, _, _, slot, _, _, created, rfl⟩ | ⟨idx, slot, _, _, _, _, rfl⟩
  · exact full
  · obtain ⟨_, shape⟩ := (KeySlot.create_eq_ok_iff crates _ _ _ _ _ _).mp created
    refine ⟨List.append_ne_nil_of_left_ne_nil full.inhabited _, fun other member => ?_⟩
    rcases List.mem_append.mp member with old | new
    · exact full.costs other old
    · rw [List.mem_singleton.mp new, shape]
  · refine ⟨fun empty => full.inhabited ?_, fun other member => ?_⟩
    · have lengths := congrArg List.length empty
      rw [List.length_modify] at lengths
      exact List.length_eq_zero_iff.mp lengths
    · obtain ⟨before, old, same⟩ := mem_modify_revoked member
      rcases same with rfl | rfl
      · exact full.costs other old
      · exact full.costs before old

theorem downgraded {table : KeySlotTable} (full : FullCost table) : ¬SameMetadata table (cheapened table) := by
  intro unchanged
  cases slots : table.slots with
  | nil => exact full.inhabited slots
  | cons slot others =>
    have same := unchanged.slots
    simp only [cheapened, slots, List.map_cons, List.cons.injEq, KeySlot.metadata, Prod.mk.injEq] at same
    have cost := full.costs slot (by rw [slots]; exact List.mem_cons_self)
    rw [cost] at same
    exact absurd same.1.2.1 (by decide)

end FullCost

/-- For every table the program can make: a forgery goes through unnoticed exactly when it is
acceptable and alters a metadata byte, and there is a forger for whom it always does. -/
theorem forgeries_undetected {master : U8Array MASTER_LEN} {passphrase : List UInt8} {draws : TableDraws}
    {start table : KeySlotTable} (made : newInitial crates master passphrase draws = .ok start)
    (calls : List TableCall) (ran : run (TableCall.step crates) start calls = some table) :
    (∀ forge : List UInt8 → U8Array 32 → List UInt8,
      (∀ read, fromBytes crates (forge (table.toBytes crates) table.headerSalt) table.headerSalt = .ok read →
        SameMetadata table read) ↔
      (Acceptable crates (forge (table.toBytes crates) table.headerSalt) table.headerSalt →
        SameMetadataBytes (table.toBytes crates) (forge (table.toBytes crates) table.headerSalt))) ∧
    ∃ read, fromBytes crates (downgrade crates (table.toBytes crates) table.headerSalt) table.headerSalt = .ok read ∧
      ¬SameMetadata table read := by
  have few : table.slots.length ≤ MAX_SLOTS :=
    (run_invariant WellFormed (fun _ _ _ wellFormed stepped => WellFormed.step crates wellFormed stepped)
      (WellFormed.of_newInitial crates made) ran).few
  have full : FullCost table :=
    run_invariant FullCost (fun _ _ _ full stepped => FullCost.step crates full stepped)
      (FullCost.of_newInitial crates made) ran
  have small := countable few
  refine ⟨fun forge => forgery_iff crates table small _, ?_⟩
  exact ⟨cheapened table, downgrade_read crates table small, full.downgraded⟩

theorem forgeries_undetected_revoked : ∃ start table,
    newInitial checksumCrates ⟨List.replicate 32 1, rfl⟩ (ascii "alice") TableDraws.blank = .ok start ∧
    run (TableCall.step checksumCrates) start
      [.addSlot ⟨List.replicate 32 1, rfl⟩ (ascii "bob") SlotDraws.blank,
        .addSlot ⟨List.replicate 32 1, rfl⟩ (ascii "carol") SlotDraws.blank, .revokeSlot 1] = some table ∧
    table.slots.map KeySlot.isEnabled = [true, false, true] ∧
    ∃ read, fromBytes checksumCrates (downgrade checksumCrates (table.toBytes checksumCrates) table.headerSalt)
      table.headerSalt = .ok read ∧ ¬SameMetadata table read := by
  have reached : (newInitial checksumCrates ⟨List.replicate 32 1, rfl⟩ (ascii "alice")
      TableDraws.blank).toOption.any (fun start => (run (TableCall.step checksumCrates) start
        [.addSlot ⟨List.replicate 32 1, rfl⟩ (ascii "bob") SlotDraws.blank,
          .addSlot ⟨List.replicate 32 1, rfl⟩ (ascii "carol") SlotDraws.blank, .revokeSlot 1]).any
        fun table => table.slots.map KeySlot.isEnabled = [true, false, true]) = true := by
    decide +kernel
  obtain ⟨start, made, reached⟩ := Outcome.ok_of_any reached
  obtain ⟨table, ran, flags⟩ := (Option.any_eq_true _ _).mp reached
  exact ⟨start, table, made, ran, of_decide_eq_true flags, (forgeries_undetected checksumCrates made _ ran).2⟩

/-- The forger lowers the memory cost of a fresh table's slot from 64 to 8. -/
theorem downgrade_undetected : ∃ table read,
    newInitial checksumCrates (U8Array.zeros 32) (ascii "alice") TableDraws.blank = .ok table ∧
    fromBytes checksumCrates (downgrade checksumCrates (table.toBytes checksumCrates) table.headerSalt)
      table.headerSalt = .ok read ∧
    table.slots.map KeySlot.mCost = [64] ∧ read.slots.map KeySlot.mCost = [8] := by
  have reached : (newInitial checksumCrates (U8Array.zeros 32) (ascii "alice") TableDraws.blank).toOption.isSome =
      true := by
    decide +kernel
  obtain ⟨table, made⟩ := Outcome.ok_of_isSome reached
  have one := newInitial_length checksumCrates made
  have full := FullCost.of_newInitial checksumCrates made
  obtain ⟨slot, only⟩ := List.length_eq_one_iff.mp one
  have cost := full.costs slot (by rw [only]; exact List.mem_singleton_self slot)
  refine ⟨table, cheapened table, made, downgrade_read checksumCrates table (by omega), ?_, ?_⟩
  · rw [only, List.map_singleton, cost]
  · simp only [cheapened, only, List.map_cons, List.map_nil]

end SoteriaAegis.Slots
