import SoteriaAegis.Slots.Parsing

/-! Where the fields of a table stand in its bytes, and which bytes the parser accepts,
said of the bytes alone. -/

namespace SoteriaAegis.Slots.KeySlotTable
open Rust Crypto
variable (crates : Crates)

/-- The first byte of slot `i`; behind the last slot, that of the verifier. -/
def slotOffset (i : Nat) : Nat := 6 + i * 110

def costsWindow (data : List UInt8) (i : Nat) : List UInt8 := window data (slotOffset i + 16) 9

def flagsWindow (data : List UInt8) (i : Nat) : List UInt8 := window data (slotOffset i + 101) 1

def costsBytes (slot : KeySlot) : List UInt8 :=
  [slot.kdfId] ++ (u32ToLeBytes slot.mCost).val ++ (u32ToLeBytes slot.tCost).val

theorem slotBytes_costs (slot : KeySlot) : window (slotBytes slot) 16 9 = costsBytes slot := by
  have placed := window_append slot.slotId.val (costsBytes slot)
    (slot.salt.val ++ slot.nonce.val ++ slot.ct.val ++ [slot.flags] ++ (u64ToLeBytes slot.createdAt).val)
  have width : (costsBytes slot).length = 9 := by
    simp only [costsBytes, List.length_append, List.length_singleton, U8Array.length_val]
  rw [U8Array.length_val, width] at placed
  simpa only [slotBytes, costsBytes, List.append_assoc] using placed

theorem slotBytes_flags (slot : KeySlot) : window (slotBytes slot) 101 1 = [slot.flags] := by
  have placed := window_append (slot.slotId.val ++ costsBytes slot ++ slot.salt.val ++ slot.nonce.val ++ slot.ct.val)
    [slot.flags] (u64ToLeBytes slot.createdAt).val
  simp only [costsBytes, List.length_append, List.length_singleton, U8Array.length_val] at placed
  simp only [List.append_assoc] at placed
  simp only [slotBytes, List.append_assoc]
  exact placed

theorem costsBytes_inj {first second : KeySlot} (same : costsBytes first = costsBytes second) :
    first.kdfId = second.kdfId ∧ first.mCost = second.mCost ∧ first.tCost = second.tCost := by
  simp only [costsBytes, List.append_assoc] at same
  obtain ⟨kdfId, costs⟩ := List.append_inj same (by simp)
  obtain ⟨mCost, tCost⟩ := List.append_inj costs (by simp)
  exact ⟨List.singleton_inj.mp kdfId, u32ToLeBytes_injective (Subtype.ext mCost),
    u32ToLeBytes_injective (Subtype.ext tCost)⟩

section
variable (table : KeySlotTable) (behind : List UInt8)

theorem countByte (small : table.slots.length < 256) :
    ∃ count : UInt8, (table.bodyBytes ++ behind)[5]? = some count ∧ count.toNat = table.slots.length := by
  refine ⟨UInt8.ofNat table.slots.length, ?_, ?_⟩
  · rw [bodyBytes_split]
    rfl
  · rw [UInt8.toNat_ofNat']
    exact Nat.mod_eq_of_lt small

theorem slotWindow (i : Nat) (inside : i < table.slots.length) :
    window (table.bodyBytes ++ behind) (slotOffset i) 110 = slotBytes table.slots[i] := by
  have placed := window_flatMap slotBytes_length [0x53, 0x4F, 0x54, 0x4B, 1, UInt8.ofNat table.slots.length]
    (table.verifier.val ++ behind) table.slots i inside
  simp only [List.append_assoc] at placed
  simp only [bodyBytes_split, List.append_assoc, slotOffset]
  exact placed

theorem costsWindow_eq (i : Nat) (inside : i < table.slots.length) :
    costsWindow (table.bodyBytes ++ behind) i = costsBytes table.slots[i] := by
  rw [costsWindow, ← slotBytes_costs, ← slotWindow table behind i inside,
    window_window _ _ 110 16 9 (by decide)]

theorem flagsWindow_eq (i : Nat) (inside : i < table.slots.length) :
    flagsWindow (table.bodyBytes ++ behind) i = [table.slots[i].flags] := by
  rw [flagsWindow, ← slotBytes_flags, ← slotWindow table behind i inside,
    window_window _ _ 110 101 1 (by decide)]

theorem verifierWindow :
    window (table.bodyBytes ++ behind) (slotOffset table.slots.length) 32 = table.verifier.val := by
  have placed := window_append
    ([0x53, 0x4F, 0x54, 0x4B, 1, UInt8.ofNat table.slots.length] ++ table.slots.flatMap slotBytes)
    table.verifier.val behind
  rw [List.length_append, flatMap_length_of_width slotBytes_length, U8Array.length_val] at placed
  simp only [List.append_assoc] at placed
  simp only [bodyBytes_split, List.append_assoc, slotOffset]
  exact placed

end

/-- Inputs with a valid trailer, the right first five bytes and room for the slots announced. -/
def Acceptable (data : List UInt8) (headerSalt : U8Array 32) : Prop :=
  TrailerValid crates data headerSalt ∧ data.take 4 = HEADER_MAGIC ∧ data[4]? = some HEADER_VERSION ∧
    ∃ slotCount ∈ data[5]?, slotOffset slotCount.toNat + 32 + OUT_LEN ≤ data.length

theorem acceptable_of_ok {data : List UInt8} {headerSalt : U8Array 32} {table : KeySlotTable}
    (accepted : fromBytes crates data headerSalt = .ok table) : Acceptable crates data headerSalt := by
  have valid : TrailerValid crates data headerSalt := by
    by_contra invalid
    obtain ⟨error, refused⟩ := fromBytes_of_invalid crates invalid
    rw [accepted] at refused
    cases refused
  obtain ⟨_, small, extra, shape⟩ := (fromBytes_eq_ok_iff crates _ _ _).mp accepted
  rw [List.append_assoc] at shape
  obtain ⟨count, counted, same⟩ := countByte table
    (extra ++ (crates.blake3KeyedHash headerSalt (table.bodyBytes ++ extra)).val) small
  rw [← shape] at counted
  have lengths := congrArg List.length shape
  simp only [List.length_append, bodyBytes_length, U8Array.length_val] at lengths
  refine ⟨valid, ?_, ?_, count, counted, ?_⟩
  · rw [shape, bodyBytes_split]
    rfl
  · rw [shape, bodyBytes_split]
    rfl
  · simp only [slotOffset, same, OUT_LEN]
    omega

theorem fromBytes_isOk_iff (data : List UInt8) (headerSalt : U8Array 32) :
    (∃ table, fromBytes crates data headerSalt = .ok table) ↔ Acceptable crates data headerSalt := by
  constructor
  · rintro ⟨table, accepted⟩
    exact acceptable_of_ok crates accepted
  · rintro ⟨valid, magic, version, count, counted, room⟩
    have outLen : OUT_LEN = 32 := rfl
    simp only [slotOffset] at room
    have bodyLength : (data.take (data.length - OUT_LEN)).length = data.length - OUT_LEN := by
      rw [List.length_take]
      omega
    have long : 5 ≤ (data.take (data.length - OUT_LEN)).length := by omega
    have header : (data.take (data.length - OUT_LEN)).take 4 = HEADER_MAGIC ∧
        (data.take (data.length - OUT_LEN))[4]? = some HEADER_VERSION := by
      rw [List.take_take, Nat.min_eq_left (by omega), List.getElem?_take_of_lt (by omega)]
      exact ⟨magic, version⟩
    have countedBody : (data.take (data.length - OUT_LEN))[5]? = some count := by
      rw [List.getElem?_take_of_lt (by omega)]
      exact counted
    have fits : 6 + (tableShape count.toNat).width ≤ (data.take (data.length - OUT_LEN)).length := by
      simp only [tableShape]
      omega
    obtain ⟨table, ran, _⟩ :=
      (readTable_follows (data.take (data.length - OUT_LEN)) count.toNat headerSalt).full 6 fits
    refine ⟨table, ?_⟩
    rw [fromBytes_of_valid crates valid, parseBody_eq _ _ long, if_pos header, countedBody]
    exact congrArg Prod.fst ran

end SoteriaAegis.Slots.KeySlotTable
