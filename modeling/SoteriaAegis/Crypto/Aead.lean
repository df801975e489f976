import SoteriaAegis.Crypto.Keys

/-! The AEAD surface: two algorithms behind one cipher bound to a 256-bit key. -/

namespace SoteriaAegis.Crypto
open Rust

inductive AeadAlgo where
  | aes256Gcm
  | xChaCha20Poly1305
  deriving DecidableEq, Repr

structure AeadCipher where
  algo : AeadAlgo
  key : U8Array 32

/-- What `OsRng.fill_bytes` writes in a buffer of each length, at one call. -/
abbrev OsFill : Type := (n : Nat) → U8Array n

/-- `KeyInit::new_from_slice` of either cipher, which refuses a key that is not 32 bytes. -/
def newFromSlice (key : List UInt8) : Option (U8Array 32) := U8Array.tryFrom 32 key

def nonceFromSlice {ε : Type} (n : Nat) (nonce : List UInt8) : Outcome ε (U8Array n) :=
  U8Array.copyFromSlice n nonce

namespace AeadCipher
variable (crates : Crates)

def new (algo : AeadAlgo) (key : U8Array 32) : AeadCipher := ⟨algo, key⟩

/-- The nonce is drawn here, `fill` being the system's answer. -/
def aeadSeal (cipher : AeadCipher) (fill : OsFill) (plaintext aad : List UInt8) :
    AegisResult (List UInt8 × List UInt8) :=
  match cipher.algo with
  | .aes256Gcm => do
    let nonce := fill 12
    let key ← Outcome.okOr .aeadSeal (newFromSlice cipher.key.val)
    let checked ← nonceFromSlice 12 nonce.val
    let ct ← Outcome.okOr .aeadSeal (crates.aes256GcmEncrypt key checked plaintext aad)
    return (nonce.val, ct)
  | .xChaCha20Poly1305 => do
    let nonce := fill 24
    let key ← Outcome.okOr .aeadSeal (newFromSlice cipher.key.val)
    let checked ← nonceFromSlice 24 nonce.val
    let ct ← Outcome.okOr .aeadSeal (crates.xChaChaEncrypt key checked plaintext aad)
    return (nonce.val, ct)

def aeadOpen (cipher : AeadCipher) (nonce ciphertext aad : List UInt8) : AegisResult (List UInt8) :=
  match cipher.algo with
  | .aes256Gcm =>
    if nonce.length ≠ 12 then .err .aeadOpen
    else do
      let key ← Outcome.okOr .aeadOpen (newFromSlice cipher.key.val)
      let nonce ← nonceFromSlice 12 nonce
      Outcome.okOr .aeadOpen (crates.aes256GcmDecrypt key nonce ciphertext aad)
  | .xChaCha20Poly1305 =>
    if nonce.length ≠ 24 then .err .aeadOpen
    else do
      let key ← Outcome.okOr .aeadOpen (newFromSlice cipher.key.val)
      let nonce ← nonceFromSlice 24 nonce
      Outcome.okOr .aeadOpen (crates.xChaChaDecrypt key nonce ciphertext aad)

end AeadCipher

def AeadAlgo.nonceLen : AeadAlgo → Nat
  | aes256Gcm => 12
  | xChaCha20Poly1305 => 24

theorem AeadAlgo.nonceLen_injective : Function.Injective AeadAlgo.nonceLen := by
  intro first second same
  cases first <;> cases second <;> simp_all [AeadAlgo.nonceLen]

namespace Crates

def encrypt (crates : Crates) : (algo : AeadAlgo) → U8Array 32 → U8Array algo.nonceLen →
    (msg aad : List UInt8) → Option (List UInt8)
  | .aes256Gcm => crates.aes256GcmEncrypt
  | .xChaCha20Poly1305 => crates.xChaChaEncrypt

def decrypt (crates : Crates) : (algo : AeadAlgo) → U8Array 32 → U8Array algo.nonceLen →
    (msg aad : List UInt8) → Option (List UInt8)
  | .aes256Gcm => crates.aes256GcmDecrypt
  | .xChaCha20Poly1305 => crates.xChaChaDecrypt

theorem OpensSealed.decrypt_encrypt {crates : Crates} (opens : crates.OpensSealed) (algo : AeadAlgo)
    (key : U8Array 32) (nonce : U8Array algo.nonceLen) (msg aad ct : List UInt8)
    (done : crates.encrypt algo key nonce msg aad = some ct) :
    crates.decrypt algo key nonce ct aad = some msg := by
  cases algo with
  | aes256Gcm => exact opens.aes key nonce msg aad ct done
  | xChaCha20Poly1305 => exact opens.xChaCha key nonce msg aad ct done

end Crates

namespace AeadCipher
variable (crates : Crates)

theorem aeadSeal_eq (cipher : AeadCipher) (fill : OsFill) (plaintext aad : List UInt8) :
    cipher.aeadSeal crates fill plaintext aad =
      match crates.encrypt cipher.algo cipher.key (fill cipher.algo.nonceLen) plaintext aad with
      | some ct => .ok ((fill cipher.algo.nonceLen).val, ct)
      | none => .err .aeadSeal := by
  obtain ⟨algo, key⟩ := cipher
  cases algo with
  | aes256Gcm =>
    simp only [aeadSeal, newFromSlice, nonceFromSlice, U8Array.tryFrom_val, U8Array.copyFromSlice_val,
      Outcome.okOr_some, Outcome.ok_bind, Crates.encrypt, AeadAlgo.nonceLen]
    cases crates.aes256GcmEncrypt key (fill 12) plaintext aad <;> rfl
  | xChaCha20Poly1305 =>
    simp only [aeadSeal, newFromSlice, nonceFromSlice, U8Array.tryFrom_val, U8Array.copyFromSlice_val,
      Outcome.okOr_some, Outcome.ok_bind, Crates.encrypt, AeadAlgo.nonceLen]
    cases crates.xChaChaEncrypt key (fill 24) plaintext aad <;> rfl

theorem aeadSeal_eq_ok_iff (cipher : AeadCipher) (fill : OsFill) (plaintext aad nonce ct : List UInt8) :
    cipher.aeadSeal crates fill plaintext aad = .ok (nonce, ct) ↔
      nonce = (fill cipher.algo.nonceLen).val ∧
        crates.encrypt cipher.algo cipher.key (fill cipher.algo.nonceLen) plaintext aad = some ct := by
  rw [aeadSeal_eq]
  cases crates.encrypt cipher.algo cipher.key (fill cipher.algo.nonceLen) plaintext aad with
  | none => simp
  | some found => simp [eq_comm]

theorem aeadSeal_ne_panic (cipher : AeadCipher) (fill : OsFill) (plaintext aad : List UInt8) :
    cipher.aeadSeal crates fill plaintext aad ≠ .panic := by
  rw [aeadSeal_eq]
  cases crates.encrypt cipher.algo cipher.key (fill cipher.algo.nonceLen) plaintext aad with
  | none => simp
  | some found => simp

/-- The length test guards `from_slice`, so only a nonce of the algorithm's own length is used. -/
theorem aeadOpen_eq (cipher : AeadCipher) (nonce ciphertext aad : List UInt8) :
    cipher.aeadOpen crates nonce ciphertext aad =
      if fits : nonce.length = cipher.algo.nonceLen then
        Outcome.okOr .aeadOpen (crates.decrypt cipher.algo cipher.key ⟨nonce, fits⟩ ciphertext aad)
      else .err .aeadOpen := by
  obtain ⟨algo, key⟩ := cipher
  by_cases fits : nonce.length = algo.nonceLen
  · rw [dif_pos fits]
    cases algo with
    | aes256Gcm =>
      change nonce.length = 12 at fits
      simp only [aeadOpen, fits, ne_eq, not_true, if_false, newFromSlice, U8Array.tryFrom_val,
        Outcome.okOr_some, Outcome.ok_bind, nonceFromSlice, U8Array.copyFromSlice, dif_pos, Crates.decrypt]
      rfl
    | xChaCha20Poly1305 =>
      change nonce.length = 24 at fits
      simp only [aeadOpen, fits, ne_eq, not_true, if_false, newFromSlice, U8Array.tryFrom_val,
        Outcome.okOr_some, Outcome.ok_bind, nonceFromSlice, U8Array.copyFromSlice, dif_pos, Crates.decrypt]
      rfl
  · rw [dif_neg fits]
    cases algo with
    | aes256Gcm => exact if_pos fits
    | xChaCha20Poly1305 => exact if_pos fits

theorem aeadOpen_val (cipher : AeadCipher) (nonce : U8Array cipher.algo.nonceLen)
    (ciphertext aad : List UInt8) :
    cipher.aeadOpen crates nonce.val ciphertext aad =
      Outcome.okOr .aeadOpen (crates.decrypt cipher.algo cipher.key nonce ciphertext aad) := by
  rw [aeadOpen_eq, dif_pos nonce.property]

theorem aeadOpen_ne_panic (cipher : AeadCipher) (nonce ciphertext aad : List UInt8) :
    cipher.aeadOpen crates nonce ciphertext aad ≠ .panic := by
  rw [aeadOpen_eq]
  split
  · exact Outcome.okOr_ne_panic _ _
  · simp

end AeadCipher
end SoteriaAegis.Crypto
