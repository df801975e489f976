import SoteriaAegis.Crypto.Aead

/-! One key slot: the master wrapped under a key derived from a passphrase. -/

namespace SoteriaAegis.Slots
open Rust Crypto

def HEADER_MAGIC : List UInt8 := ascii "SOTK"
def HEADER_VERSION : UInt8 := 1
def KDF_ID_ARGON2ID : UInt8 := 1
def MAX_SLOTS : Nat := 16
abbrev NONCE_LEN : Nat := 12
abbrev TAG_LEN : Nat := 16
abbrev CT_LEN : Nat := MASTER_LEN + TAG_LEN

structure KeySlot where
  slotId : U8Array 16
  kdfId : UInt8
  mCost : UInt32
  tCost : UInt32
  salt : U8Array 16
  nonce : U8Array NONCE_LEN
  ct : U8Array CT_LEN
  flags : UInt8
  createdAt : UInt64
  deriving DecidableEq

/-- What the system answers while a slot is made: three random draws and the clock. -/
structure SlotDraws where
  salt : U8Array 16
  fill : OsFill
  slotId : U8Array 16
  now : UInt64

def SlotDraws.blank : SlotDraws := ⟨U8Array.zeros 16, U8Array.zeros, U8Array.zeros 16, 0⟩

def VERIFIER_KEY : U8Array 32 := ⟨ascii "soteria-aegis-volume-verifier-v1", by decide⟩

namespace KeySlot
variable (crates : Crates)

def create (master : U8Array MASTER_LEN) (passphrase : List UInt8) (mCost tCost : UInt32)
    (draws : SlotDraws) : AegisResult KeySlot := do
  let slotKey ← argon2idRoot crates passphrase draws.salt.val mCost tCost
  let sk ← U8Array.copyFromSlice 32 slotKey.expose
  let cipher := AeadCipher.new .aes256Gcm sk
  let (nonce, ct) ← cipher.aeadSeal crates draws.fill master.val HEADER_MAGIC
  let nonceArr ← U8Array.copyFromSlice NONCE_LEN nonce
  let ctArr ← U8Array.copyFromSlice CT_LEN ct
  return {
    slotId := draws.slotId
    kdfId := KDF_ID_ARGON2ID
    mCost := mCost
    tCost := tCost
    salt := draws.salt
    nonce := nonceArr
    ct := ctArr
    flags := 0b00000001
    createdAt := draws.now }

def unsealSlot (slot : KeySlot) (passphrase : List UInt8) : AegisResult AegisKey := do
  let slotKey ← argon2idRoot crates passphrase slot.salt.val slot.mCost slot.tCost
  let sk ← U8Array.copyFromSlice 32 slotKey.expose
  let cipher := AeadCipher.new .aes256Gcm sk
  let master ← (cipher.aeadOpen crates slot.nonce.val slot.ct.val HEADER_MAGIC).mapErr
    fun _ => .slotUnseal
  if master.length ≠ MASTER_LEN then .err .slotUnseal
  else
    let arr ← U8Array.copyFromSlice MASTER_LEN master
    return AegisKey.new32 arr

def isEnabled (slot : KeySlot) : Bool := slot.flags &&& 0b00000001 != 0

end KeySlot

def volumeVerifier (crates : Crates) (master : U8Array MASTER_LEN) : U8Array 32 :=
  crates.blake3KeyedHash VERIFIER_KEY master.val

def DerivesKey (crates : Crates) (slot : KeySlot) (passphrase : List UInt8) (key : U8Array 32) : Prop :=
  argon2idRoot crates passphrase slot.salt.val slot.mCost slot.tCost = .ok (AegisKey.new32 key)

/-- The slot's ciphertext is `master` sealed under the key of `passphrase`. -/
def Wraps (crates : Crates) (slot : KeySlot) (passphrase : List UInt8) (master : U8Array MASTER_LEN) : Prop :=
  ∃ key, DerivesKey crates slot passphrase key ∧
    crates.aes256GcmEncrypt key slot.nonce master.val HEADER_MAGIC = some slot.ct.val

namespace KeySlot
variable (crates : Crates)

theorem create_eq_ok_iff (master : U8Array MASTER_LEN) (passphrase : List UInt8) (mCost tCost : UInt32)
    (draws : SlotDraws) (slot : KeySlot) :
    create crates master passphrase mCost tCost draws = .ok slot ↔
      Wraps crates slot passphrase master ∧
        slot = { slotId := draws.slotId, kdfId := KDF_ID_ARGON2ID, mCost := mCost, tCost := tCost,
                 salt := draws.salt, nonce := draws.fill NONCE_LEN, ct := slot.ct, flags := 1,
                 createdAt := draws.now } := by
  constructor
  · intro made
    obtain ⟨slotKey, derived, keyed⟩ := (Outcome.bind_eq_ok_iff _ _ _).mp made
    obtain ⟨raw, rfl⟩ := argon2idRoot_ok crates derived
    rw [AegisKey.expose_new32, U8Array.copyFromSlice_val, Outcome.ok_bind] at keyed
    obtain ⟨⟨nonce, ct⟩, wrapped, copying⟩ := (Outcome.bind_eq_ok_iff _ _ _).mp keyed
    obtain ⟨nonceArr, nonceCopied, copyingCt⟩ := (Outcome.bind_eq_ok_iff _ _ _).mp copying
    obtain ⟨ctArr, ctCopied, built⟩ := (Outcome.bind_eq_ok_iff _ _ _).mp copyingCt
    cases built
    obtain ⟨drawn, encrypted⟩ := (AeadCipher.aeadSeal_eq_ok_iff crates _ _ _ _ _ _).mp wrapped
    have sameNonce : nonceArr = draws.fill NONCE_LEN :=
      Subtype.ext (((U8Array.copyFromSlice_eq_ok_iff _ _).mp nonceCopied).trans drawn)
    have sameCt : ctArr.val = ct := (U8Array.copyFromSlice_eq_ok_iff _ _).mp ctCopied
    subst sameNonce
    exact ⟨⟨raw, derived, sameCt ▸ encrypted⟩, rfl⟩
  · rintro ⟨⟨key, derived, encrypted⟩, shape⟩
    rw [shape] at derived encrypted
    have wrapped : (AeadCipher.new .aes256Gcm key).aeadSeal crates draws.fill master.val HEADER_MAGIC =
        .ok ((draws.fill NONCE_LEN).val, slot.ct.val) :=
      (AeadCipher.aeadSeal_eq_ok_iff crates _ _ _ _ _ _).mpr ⟨rfl, encrypted⟩
    have derivedKey : argon2idRoot crates passphrase draws.salt.val mCost tCost =
        .ok (AegisKey.new32 key) := derived
    rw [shape]
    simp only [create, derivedKey, Outcome.ok_bind, AegisKey.expose_new32, U8Array.copyFromSlice_val,
      wrapped, Outcome.pure_eq]

theorem create_enabled {master : U8Array MASTER_LEN} {passphrase : List UInt8} {mCost tCost : UInt32}
    {draws : SlotDraws} {slot : KeySlot} (made : create crates master passphrase mCost tCost draws = .ok slot) :
    slot.isEnabled = true := by
  have shape := ((create_eq_ok_iff crates _ _ _ _ _ _).mp made).2
  have flags : slot.flags = 1 := congrArg KeySlot.flags shape
  rw [isEnabled, flags]
  decide

theorem unsealSlot_eq_ok_iff (slot : KeySlot) (passphrase : List UInt8) (master : AegisKey) :
    slot.unsealSlot crates passphrase = .ok master ↔
      ∃ key arr, DerivesKey crates slot passphrase key ∧
        crates.aes256GcmDecrypt key slot.nonce slot.ct.val HEADER_MAGIC = some arr.val ∧
        master = AegisKey.new32 arr := by
  have opened : ∀ key : U8Array 32,
      (AeadCipher.new .aes256Gcm key).aeadOpen crates slot.nonce.val slot.ct.val HEADER_MAGIC =
        Outcome.okOr .aeadOpen (crates.aes256GcmDecrypt key slot.nonce slot.ct.val HEADER_MAGIC) :=
    fun key => AeadCipher.aeadOpen_val crates (AeadCipher.new .aes256Gcm key) slot.nonce _ _
  constructor
  · intro done
    obtain ⟨slotKey, derived, keyed⟩ := (Outcome.bind_eq_ok_iff _ _ _).mp done
    obtain ⟨raw, rfl⟩ := argon2idRoot_ok crates derived
    rw [AegisKey.expose_new32, U8Array.copyFromSlice_val, Outcome.ok_bind] at keyed
    obtain ⟨bytes, decrypted, checked⟩ := (Outcome.bind_eq_ok_iff _ _ _).mp keyed
    rw [Outcome.mapErr_eq_ok_iff, opened, Outcome.okOr_eq_ok_iff] at decrypted
    by_cases fits : bytes.length = MASTER_LEN
    · simp only [fits, ne_eq, not_true, if_false] at checked
      obtain ⟨arr, arrCopied, built⟩ := (Outcome.bind_eq_ok_iff _ _ _).mp checked
      cases built
      have sameArr : arr.val = bytes := (U8Array.copyFromSlice_eq_ok_iff _ _).mp arrCopied
      exact ⟨raw, arr, derived, sameArr ▸ decrypted, rfl⟩
    · simp only [ne_eq, fits, not_false_eq_true, if_true] at checked
      cases checked
  · rintro ⟨key, arr, derived, decrypted, rfl⟩
    rw [DerivesKey] at derived
    simp only [unsealSlot, derived, Outcome.ok_bind, AegisKey.expose_new32, U8Array.copyFromSlice_val, opened,
      decrypted, Outcome.okOr_some, Outcome.mapErr, arr.property, ne_eq, not_true, if_false, Outcome.pure_eq]

theorem create_ne_panic (tags : crates.AppendsTag) (master : U8Array MASTER_LEN) (passphrase : List UInt8)
    (mCost tCost : UInt32) (draws : SlotDraws) : create crates master passphrase mCost tCost draws ≠ .panic := by
  apply Outcome.bind_ne_panic (argon2idRoot_ne_panic crates _ _ _ _)
  intro slotKey derived
  obtain ⟨raw, rfl⟩ := argon2idRoot_ok crates derived
  rw [AegisKey.expose_new32, U8Array.copyFromSlice_val, Outcome.ok_bind]
  apply Outcome.bind_ne_panic (AeadCipher.aeadSeal_ne_panic crates _ _ _ _)
  intro (nonce, ct) wrapped
  obtain ⟨drawn, encrypted⟩ := (AeadCipher.aeadSeal_eq_ok_iff crates _ _ _ _ _ _).mp wrapped
  have nonceFits : nonce.length = NONCE_LEN := by rw [drawn, U8Array.length_val]; rfl
  have ctFits : ct.length = CT_LEN := by rw [tags _ _ _ _ _ encrypted, U8Array.length_val]
  simp only [U8Array.copyFromSlice_of_length nonceFits, U8Array.copyFromSlice_of_length ctFits, Outcome.ok_bind]
  exact Outcome.ok_ne_panic _

theorem unsealSlot_ne_panic (slot : KeySlot) (passphrase : List UInt8) : slot.unsealSlot crates passphrase ≠ .panic := by
  apply Outcome.bind_ne_panic (argon2idRoot_ne_panic crates _ _ _ _)
  intro slotKey derived
  obtain ⟨raw, rfl⟩ := argon2idRoot_ok crates derived
  rw [AegisKey.expose_new32, U8Array.copyFromSlice_val, Outcome.ok_bind]
  apply Outcome.bind_ne_panic (Outcome.mapErr_ne_panic (AeadCipher.aeadOpen_ne_panic crates _ _ _ _))
  intro bytes _
  by_cases fits : bytes.length = MASTER_LEN
  · rw [if_neg (not_not.mpr fits), U8Array.copyFromSlice_of_length fits]
    exact Outcome.ok_ne_panic _
  · rw [if_pos fits]
    exact Outcome.err_ne_panic _

theorem unsealSlot_of_wraps (opens : crates.OpensSealed) {slot : KeySlot} {passphrase : List UInt8}
    {master : U8Array MASTER_LEN} (wraps : Wraps crates slot passphrase master) :
    slot.unsealSlot crates passphrase = .ok (AegisKey.new32 master) := by
  obtain ⟨key, derived, encrypted⟩ := wraps
  exact (unsealSlot_eq_ok_iff crates slot passphrase _).mpr
    ⟨key, master, derived, opens.aes key slot.nonce master.val HEADER_MAGIC slot.ct.val encrypted, rfl⟩

end KeySlot
end SoteriaAegis.Slots
