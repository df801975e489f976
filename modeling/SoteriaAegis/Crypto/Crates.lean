import SoteriaAegis.Rust.Bytes

/-! The cryptographic crates, as parameters: each field is one crate function, with
`none` for an error. Results about the program hold for every choice of them; what a
result needs of a crate is a hypothesis of that result. -/

namespace SoteriaAegis.Crypto
open Rust

structure Argon2Params where
  mCost : UInt32
  tCost : UInt32
  pCost : UInt32
  outputLen : Option Nat

structure Crates where
  argon2ParamsNew : (mCost tCost pCost : UInt32) → (outputLen : Option Nat) → Option Argon2Params
  /-- `Argon2::hash_password_into` a 32-byte buffer, Argon2id version 0x13. -/
  argon2idHash : Argon2Params → (password salt : List UInt8) → Option (U8Array 32)
  /-- `Hkdf::<Sha256>::new(Some(salt), ikm).expand(info, okm)`. -/
  hkdfExpand : (salt ikm info : List UInt8) → (okmLen : Nat) → Option (U8Array okmLen)
  blake3KeyedHash : U8Array 32 → List UInt8 → U8Array 32
  aes256GcmEncrypt : U8Array 32 → U8Array 12 → (msg aad : List UInt8) → Option (List UInt8)
  aes256GcmDecrypt : U8Array 32 → U8Array 12 → (msg aad : List UInt8) → Option (List UInt8)
  xChaChaEncrypt : U8Array 32 → U8Array 24 → (msg aad : List UInt8) → Option (List UInt8)
  xChaChaDecrypt : U8Array 32 → U8Array 24 → (msg aad : List UInt8) → Option (List UInt8)

namespace Crates

/-- The hkdf crate refuses only output longer than 255 hash lengths. -/
def ExpandsShort (crates : Crates) : Prop :=
  ∀ salt ikm info okmLen, okmLen ≤ 255 * 32 → crates.hkdfExpand salt ikm info okmLen ≠ none

/-- AES-GCM appends its tag of 16 bytes. -/
def AppendsTag (crates : Crates) : Prop :=
  ∀ key nonce msg aad ct, crates.aes256GcmEncrypt key nonce msg aad = some ct → ct.length = msg.length + 16

structure OpensSealed (crates : Crates) : Prop where
  aes : ∀ key nonce msg aad ct, crates.aes256GcmEncrypt key nonce msg aad = some ct →
    crates.aes256GcmDecrypt key nonce ct aad = some msg
  xChaCha : ∀ key nonce msg aad ct, crates.xChaChaEncrypt key nonce msg aad = some ct →
    crates.xChaChaDecrypt key nonce ct aad = some msg

end Crates

/-! A stand-in for the crates that can be evaluated. Its one primitive is a rolling
checksum of a keyed input; it keeps the laws above. -/

def checksum (key : U8Array 32) (input : List UInt8) : U8Array 32 :=
  ⟨leBytes 32 (input.foldl (fun acc byte => (acc * 263 + byte.toNat + 1) % (2 ^ 255 - 19)) (leNat key.val)),
    leBytes_length 32 _⟩

def mask (key : U8Array 32) (bytes : List UInt8) : List UInt8 := bytes.map (· ^^^ key.val.headD 0)

def checksumTag (key : U8Array 32) (nonce msg aad : List UInt8) : List UInt8 :=
  (checksum key (nonce ++ aad ++ msg)).val.take 16

def checksumSeal (key : U8Array 32) (nonce msg aad : List UInt8) : Option (List UInt8) :=
  some (mask key msg ++ checksumTag key nonce msg aad)

def checksumOpen (key : U8Array 32) (nonce ct aad : List UInt8) : Option (List UInt8) :=
  let msg := mask key (ct.take (ct.length - 16))
  if 16 ≤ ct.length ∧ ct.drop (ct.length - 16) = checksumTag key nonce msg aad then some msg else none

def checksumCrates : Crates where
  argon2ParamsNew mCost tCost pCost outputLen :=
    if 1 ≤ tCost ∧ 1 ≤ pCost ∧ 8 * pCost ≤ mCost then some ⟨mCost, tCost, pCost, outputLen⟩ else none
  argon2idHash params password salt :=
    if 8 ≤ salt.length then
      some (checksum ⟨leBytes 32 (params.mCost.toNat + 2 ^ 32 * params.tCost.toNat), leBytes_length 32 _⟩
        (salt ++ password))
    else none
  hkdfExpand salt ikm info okmLen :=
    if okmLen ≤ 255 * 32 then
      let prk := checksum (checksum (U8Array.zeros 32) (salt ++ ikm)) info
      some ⟨(List.range okmLen).map fun i => prk.val.getD (i % 32) 0, by simp⟩
    else none
  blake3KeyedHash := checksum
  aes256GcmEncrypt key nonce := checksumSeal key nonce.val
  aes256GcmDecrypt key nonce := checksumOpen key nonce.val
  xChaChaEncrypt key nonce := checksumSeal key nonce.val
  xChaChaDecrypt key nonce := checksumOpen key nonce.val

theorem mask_mask (key : U8Array 32) (bytes : List UInt8) : mask key (mask key bytes) = bytes := by
  have twice : ∀ byte : UInt8, byte ^^^ key.val.headD 0 ^^^ key.val.headD 0 = byte := by
    intro byte
    rw [UInt8.xor_assoc, UInt8.xor_self, UInt8.xor_zero]
  simp only [mask, List.map_map, Function.comp_def, twice, List.map_id']

theorem checksumTag_length (key : U8Array 32) (nonce msg aad : List UInt8) :
    (checksumTag key nonce msg aad).length = 16 := by
  simp [checksumTag]

theorem checksumOpen_seal (key : U8Array 32) (nonce msg aad ct : List UInt8)
    (sealed : checksumSeal key nonce msg aad = some ct) : checksumOpen key nonce ct aad = some msg := by
  unfold checksumSeal at sealed
  cases sealed
  have body : (mask key msg ++ checksumTag key nonce msg aad).length - 16 = (mask key msg).length := by
    rw [List.length_append, checksumTag_length, Nat.add_sub_cancel]
  simp only [checksumOpen, body, List.take_left, List.drop_left, mask_mask]
  rw [if_pos]
  rw [List.length_append, checksumTag_length]
  exact ⟨Nat.le_add_left 16 _, trivial⟩

theorem checksumCrates_opensSealed : checksumCrates.OpensSealed where
  aes key nonce msg aad ct sealed := checksumOpen_seal key nonce.val msg aad ct sealed
  xChaCha key nonce msg aad ct sealed := checksumOpen_seal key nonce.val msg aad ct sealed

theorem checksumCrates_appendsTag : checksumCrates.AppendsTag := by
  intro key nonce msg aad ct sealed
  have same : mask key msg ++ checksumTag key nonce.val msg aad = ct := Option.some.inj sealed
  rw [← same, List.length_append, checksumTag_length, mask, List.length_map]

theorem checksumCrates_expandsShort : checksumCrates.ExpandsShort := by
  intro salt ikm info okmLen short
  simp only [checksumCrates, if_pos short]
  exact Option.some_ne_none _

end SoteriaAegis.Crypto
