import SoteriaAegis.Crypto.Crates
import Mathlib.Data.List.Forall2

/-! Errors, protected keys and key derivation. Locking and wiping memory do not
change what a key's bytes are, so a key is its bytes. -/

namespace SoteriaAegis.Crypto
open Rust

inductive AegisError where
  | argon2
  | hkdf
  | aeadSeal
  | aeadOpen
  | keyLength (expected got : Nat)
  | slotUnseal
  | noSlotUnsealed
  | lastSlotRevocation
  | slotTableFull (maxSlots : Nat)
  | headerIntegrity
  | volumeMismatch
  | serialization
  deriving DecidableEq, Repr

def AegisError.message : AegisError → String
  | argon2 => "Argon2id key derivation failed"
  | hkdf => "HKDF key derivation failed"
  | aeadSeal => "AEAD seal failed"
  | aeadOpen => "AEAD open failed (authentication tag mismatch)"
  | keyLength expected got => "invalid key length: expected " ++ toString expected ++ ", got " ++ toString got
  | slotUnseal => "key slot unseal failed (wrong passphrase or corrupt slot)"
  | noSlotUnsealed => "no enabled key slot could be unsealed"
  | lastSlotRevocation => "cannot revoke the last enabled key slot"
  | slotTableFull maxSlots => "key slot table is full (max " ++ toString maxSlots ++ " slots)"
  | headerIntegrity => "slot-table header integrity check failed (HMAC mismatch)"
  | volumeMismatch => "decrypted master key does not match the volume verifier"
  | serialization => "slot-table serialization error"

/-- `Result<T>` of a function that may also panic. -/
abbrev AegisResult (α : Type) : Type := Outcome AegisError α

abbrev MASTER_LEN : Nat := 32

structure AegisKey where
  data : List UInt8
  deriving DecidableEq, Repr

namespace AegisKey

def new (material : List UInt8) : AegisKey := ⟨material⟩

def new32 (material : U8Array 32) : AegisKey := new material.val

def expose (key : AegisKey) : List UInt8 := key.data

def len (key : AegisKey) : Nat := key.data.length

def isEmpty (key : AegisKey) : Bool := key.data.isEmpty

/-- The accumulator loop of `ct_eq`, over the zip of the two keys. -/
def xorOr (acc : UInt8) (pairs : List (UInt8 × UInt8)) : UInt8 :=
  pairs.foldl (fun acc pair => acc ||| (pair.1 ^^^ pair.2)) acc

def ctEq (key other : AegisKey) : Bool :=
  if key.data.length ≠ other.data.length then false
  else xorOr 0 (key.data.zip other.data) == 0

@[simp] theorem expose_new32 (material : U8Array 32) : (new32 material).expose = material.val := rfl

theorem new32_injective : Function.Injective new32 := by
  intro first second same
  exact Subtype.ext (congrArg expose same)

theorem new32_fits {ε : Type} (material : U8Array 32) :
    (U8Array.copyFromSlice 32 (new32 material).expose : Outcome ε (U8Array 32)) ≠ .panic := by
  rw [expose_new32, U8Array.copyFromSlice_val]
  exact Outcome.ok_ne_panic _

/-- The accumulator never loses a bit, so it ends at zero when it starts there and meets no difference. -/
theorem xorOr_eq_zero_iff (acc : UInt8) (pairs : List (UInt8 × UInt8)) :
    xorOr acc pairs = 0 ↔ acc = 0 ∧ ∀ pair ∈ pairs, pair.1 = pair.2 := by
  induction pairs generalizing acc with
  | nil => simp [xorOr]
  | cons pair rest ih =>
    have step : xorOr acc (pair :: rest) = xorOr (acc ||| (pair.1 ^^^ pair.2)) rest := rfl
    calc
      xorOr acc (pair :: rest) = 0 ↔ acc ||| (pair.1 ^^^ pair.2) = 0 ∧ ∀ other ∈ rest, other.1 = other.2 := by
        rw [step, ih]
      _ ↔ (acc = 0 ∧ pair.1 = pair.2) ∧ ∀ other ∈ rest, other.1 = other.2 := by
        rw [UInt8.or_eq_zero_iff, UInt8.xor_eq_zero_iff]
      _ ↔ acc = 0 ∧ ∀ other ∈ pair :: rest, other.1 = other.2 := by
        rw [and_assoc, List.forall_mem_cons]

theorem zip_agrees_iff {α : Type} {xs ys : List α} (length : xs.length = ys.length) :
    (∀ pair ∈ xs.zip ys, pair.1 = pair.2) ↔ xs = ys := by
  calc
    (∀ pair ∈ xs.zip ys, pair.1 = pair.2) ↔ List.Forall₂ (· = ·) xs ys := by
      rw [List.forall₂_iff_zip, and_iff_right length]
      exact Prod.forall
    _ ↔ xs = ys := by rw [List.forall₂_eq_eq_eq]

/-- `ct_eq` decides whether two keys, of whatever lengths, expose the same bytes: the
accumulator is zero when no pair differs, and one difference anywhere keeps it from zero. -/
theorem ctEq_decides (key other : AegisKey) : (key.ctEq other = true ↔ key.expose = other.expose) ∧
    ∀ pairs, xorOr 0 pairs = 0 ↔ ∀ pair ∈ pairs, pair.1 = pair.2 := by
  have zero : ∀ pairs, xorOr 0 pairs = 0 ↔ ∀ pair ∈ pairs, pair.1 = pair.2 := by
    intro pairs
    rw [xorOr_eq_zero_iff]
    exact and_iff_right rfl
  refine ⟨?_, zero⟩
  unfold ctEq
  by_cases length : key.data.length = other.data.length
  · rw [if_neg (not_not.mpr length), beq_iff_eq, zero, zip_agrees_iff length]
    rfl
  · rw [if_pos length]
    constructor
    · intro impossible
      cases impossible
    · intro same
      exact absurd (congrArg List.length same) length

end AegisKey

variable (crates : Crates)

/-- Parallelism is fixed at 1, as upstream. -/
def argon2idRoot (passphrase salt : List UInt8) (memoryKib iterations : UInt32) : AegisResult AegisKey := do
  let params ← Outcome.okOr .argon2 (crates.argon2ParamsNew memoryKib iterations 1 (some MASTER_LEN))
  let out ← Outcome.okOr .argon2 (crates.argon2idHash params passphrase salt)
  return AegisKey.new out.val

def hkdfSha256 (ikm salt info : List UInt8) : AegisResult (U8Array 32) :=
  Outcome.okOr .hkdf (crates.hkdfExpand salt ikm info 32)

theorem argon2idRoot_ok {passphrase salt : List UInt8} {memoryKib iterations : UInt32} {key : AegisKey}
    (derived : argon2idRoot crates passphrase salt memoryKib iterations = .ok key) :
    ∃ raw : U8Array 32, key = AegisKey.new32 raw := by
  obtain ⟨params, _, rest⟩ := (Outcome.bind_eq_ok_iff _ _ _).mp derived
  obtain ⟨out, _, made⟩ := (Outcome.bind_eq_ok_iff _ _ _).mp rest
  cases made
  exact ⟨out, rfl⟩

theorem argon2idRoot_ne_panic (passphrase salt : List UInt8) (memoryKib iterations : UInt32) :
    argon2idRoot crates passphrase salt memoryKib iterations ≠ .panic := by
  apply Outcome.bind_ne_panic (Outcome.okOr_ne_panic _ _)
  intro params _
  apply Outcome.bind_ne_panic (Outcome.okOr_ne_panic _ _)
  intro out _
  exact Outcome.ok_ne_panic _

theorem hkdfSha256_total (expands : crates.ExpandsShort) (ikm salt info : List UInt8) :
    ∃ okm, hkdfSha256 crates ikm salt info = .ok okm := by
  obtain ⟨okm, found⟩ := Option.ne_none_iff_exists'.mp (expands salt ikm info 32 (by decide))
  exact ⟨okm, by rw [hkdfSha256, found, Outcome.okOr_some]⟩

end SoteriaAegis.Crypto
