import SoteriaAegis.Rust.Outcome
import Mathlib.Algebra.Order.Ring.Nat
import Mathlib.Tactic.Ring

/-! Byte strings: arrays of a fixed length, slices with their length checks, and
little-endian integers. -/

namespace SoteriaAegis.Rust

abbrev U8Array (n : Nat) : Type := { bytes : List UInt8 // bytes.length = n }

namespace U8Array

def zeros (n : Nat) : U8Array n := ⟨List.replicate n 0, List.length_replicate⟩

@[simp] theorem length_val {n : Nat} (array : U8Array n) : array.val.length = n := array.property

def tryFrom (n : Nat) (slice : List UInt8) : Option (U8Array n) :=
  if same : slice.length = n then some ⟨slice, same⟩ else none

/-- `copy_from_slice` into a fresh `[0u8; n]`, which panics on another length. -/
def copyFromSlice {ε : Type} (n : Nat) (slice : List UInt8) : Outcome ε (U8Array n) :=
  if same : slice.length = n then .ok ⟨slice, same⟩ else .panic

theorem tryFrom_eq_some_iff {n : Nat} (slice : List UInt8) (array : U8Array n) :
    tryFrom n slice = some array ↔ array.val = slice := by
  unfold tryFrom
  split
  next same => simp only [Option.some.injEq, Subtype.ext_iff, eq_comm]
  next other =>
    simp only [reduceCtorEq, false_iff]
    intro same
    exact other (same ▸ array.property)

@[simp] theorem tryFrom_val {n : Nat} (array : U8Array n) : tryFrom n array.val = some array :=
  (tryFrom_eq_some_iff array.val array).mpr rfl

theorem copyFromSlice_eq_ok_iff {ε : Type} {n : Nat} (slice : List UInt8) (array : U8Array n) :
    (copyFromSlice n slice : Outcome ε (U8Array n)) = .ok array ↔ array.val = slice := by
  unfold copyFromSlice
  split
  next same => simp only [Outcome.ok.injEq, Subtype.ext_iff, eq_comm]
  next other =>
    simp only [reduceCtorEq, false_iff]
    intro same
    exact other (same ▸ array.property)

theorem copyFromSlice_of_length {ε : Type} {n : Nat} {slice : List UInt8} (same : slice.length = n) :
    (copyFromSlice n slice : Outcome ε (U8Array n)) = .ok ⟨slice, same⟩ := dif_pos same

@[simp] theorem copyFromSlice_val {ε : Type} {n : Nat} (array : U8Array n) :
    (copyFromSlice n array.val : Outcome ε (U8Array n)) = .ok array :=
  (copyFromSlice_eq_ok_iff array.val array).mpr rfl

end U8Array

/-- `&buf[start..stop]`, which panics when the range leaves the buffer. -/
def sliceRange {ε : Type} (buf : List UInt8) (start stop : Nat) : Outcome ε (List UInt8) :=
  if start ≤ stop ∧ stop ≤ buf.length then .ok ((buf.drop start).take (stop - start)) else .panic

theorem sliceRange_ok {ε : Type} (buf : List UInt8) (start stop : Nat) (order : start ≤ stop)
    (inside : stop ≤ buf.length) :
    (sliceRange buf start stop : Outcome ε (List UInt8)) = .ok ((buf.drop start).take (stop - start)) :=
  if_pos ⟨order, inside⟩

theorem sliceRange_front {ε : Type} {buf : List UInt8} {stop : Nat} (inside : stop ≤ buf.length) :
    (sliceRange buf 0 stop : Outcome ε (List UInt8)) = .ok (buf.take stop) :=
  sliceRange_ok buf 0 stop (Nat.zero_le stop) inside

theorem sliceRange_back {ε : Type} {buf : List UInt8} {start : Nat} (inside : start ≤ buf.length) :
    (sliceRange buf start buf.length : Outcome ε (List UInt8)) = .ok (buf.drop start) := by
  rw [sliceRange_ok buf start buf.length inside (Nat.le_refl _)]
  exact congrArg Outcome.ok (List.take_of_length_le (by rw [List.length_drop]))

def leBytes : Nat → Nat → List UInt8
  | 0, _ => []
  | width + 1, n => UInt8.ofNat n :: leBytes width (n / 256)

def leNat : List UInt8 → Nat
  | [] => 0
  | byte :: rest => byte.toNat + 256 * leNat rest

@[simp] theorem leBytes_length (width n : Nat) : (leBytes width n).length = width := by
  induction width generalizing n with
  | zero => rfl
  | succ width ih => simp only [leBytes, List.length_cons, ih]

theorem leNat_leBytes (width n : Nat) (small : n < 256 ^ width) : leNat (leBytes width n) = n := by
  induction width generalizing n with
  | zero =>
    have zero : n = 0 := by simpa only [pow_zero, Nat.lt_one_iff] using small
    simp only [leBytes, leNat, zero]
  | succ width ih =>
    have high : n / 256 < 256 ^ width := by
      rw [Nat.div_lt_iff_lt_mul (by decide)]
      simpa only [pow_succ] using small
    have low : (UInt8.ofNat n).toNat = n % 256 := UInt8.toNat_ofNat'
    simp only [leBytes, leNat, ih _ high, low]
    omega

theorem leBytes_leNat (bytes : List UInt8) : leBytes bytes.length (leNat bytes) = bytes := by
  induction bytes with
  | nil => rfl
  | cons byte rest ih =>
    have small := byte.toNat_lt
    have quotient : (byte.toNat + 256 * leNat rest) / 256 = leNat rest := by omega
    have digit : UInt8.ofNat (byte.toNat + 256 * leNat rest) = byte := by
      apply UInt8.toNat_inj.mp
      rw [UInt8.toNat_ofNat']
      omega
    simp only [List.length_cons, leNat, leBytes, quotient, digit, ih]

theorem leNat_lt (bytes : List UInt8) : leNat bytes < 256 ^ bytes.length := by
  induction bytes with
  | nil => simp [leNat]
  | cons byte rest ih =>
    have small := byte.toNat_lt
    simp only [leNat, List.length_cons, pow_succ]
    omega

def u32ToLeBytes (value : UInt32) : U8Array 4 := ⟨leBytes 4 value.toNat, leBytes_length 4 _⟩

def u32FromLeBytes (bytes : U8Array 4) : UInt32 := UInt32.ofNat (leNat bytes.val)

def u64ToLeBytes (value : UInt64) : U8Array 8 := ⟨leBytes 8 value.toNat, leBytes_length 8 _⟩

def u64FromLeBytes (bytes : U8Array 8) : UInt64 := UInt64.ofNat (leNat bytes.val)

theorem u32ToLeBytes_fromLeBytes (bytes : U8Array 4) : u32ToLeBytes (u32FromLeBytes bytes) = bytes := by
  have small : leNat bytes.val < 2 ^ 32 := by
    have bound := leNat_lt bytes.val
    rw [bytes.property] at bound
    exact bound
  apply Subtype.ext
  simp only [u32ToLeBytes, u32FromLeBytes, UInt32.toNat_ofNat_of_lt' small]
  have same := leBytes_leNat bytes.val
  rwa [bytes.property] at same

theorem u64ToLeBytes_fromLeBytes (bytes : U8Array 8) : u64ToLeBytes (u64FromLeBytes bytes) = bytes := by
  have small : leNat bytes.val < 2 ^ 64 := by
    have bound := leNat_lt bytes.val
    rw [bytes.property] at bound
    exact bound
  apply Subtype.ext
  simp only [u64ToLeBytes, u64FromLeBytes, UInt64.toNat_ofNat_of_lt' small]
  have same := leBytes_leNat bytes.val
  rwa [bytes.property] at same

theorem u32ToLeBytes_injective : Function.Injective u32ToLeBytes := by
  intro first second same
  have values := congrArg (fun bytes : U8Array 4 => leNat bytes.val) same
  simp only [u32ToLeBytes] at values
  rw [leNat_leBytes 4 _ first.toNat_lt, leNat_leBytes 4 _ second.toNat_lt] at values
  exact UInt32.toNat_inj.mp values

theorem u64ToLeBytes_injective : Function.Injective u64ToLeBytes := by
  intro first second same
  have values := congrArg (fun bytes : U8Array 8 => leNat bytes.val) same
  simp only [u64ToLeBytes] at values
  rw [leNat_leBytes 8 _ first.toNat_lt, leNat_leBytes 8 _ second.toNat_lt] at values
  exact UInt64.toNat_inj.mp values

def ascii (text : String) : List UInt8 := text.toList.map fun c => UInt8.ofNat c.toNat

end SoteriaAegis.Rust
