import SoteriaAegis.Memory.Boxes
import SoteriaAegis.Crypto.Hierarchy
import SoteriaAegis.Slots.Table

/-! Key derivation and key slots on the heap. A key that is a local variable is dropped where
its scope ends, with or without an error; the keys of a hierarchy that cannot be completed are
dropped too. The plaintext that a slot's cipher returns is the one other block. -/

namespace SoteriaAegis.Memory
open Rust Crypto Slots

variable {platform : Platform} {ε α β : Type}

namespace BoxedKey
variable {ledger : Heap.Ledger} {borrowed : List (Block × List UInt8)} {boxed : BoxedKey}
  {key : AegisKey}

def exposed (key : BoxedKey) : Method (Heap platform) ε (List UInt8) :=
  fun heap => (.ok (key.expose heap), heap)

theorem exposed_bind {next : List UInt8 → Method (Heap platform) ε α} {value : Outcome ε β}
    {rep : α → β → List (Block × List UInt8) → Prop} (live : boxed.entry key ∈ borrowed)
    (others : Heap.Computes ledger borrowed (next key.expose) value rep) :
    Heap.Computes ledger borrowed (boxed.exposed >>= next) value rep := by
  intro rest held heap image holds
  rw [Method.bind_of_ok _ _ (show boxed.exposed heap = (.ok key.expose, heap) from
    Prod.ext (congrArg Outcome.ok (expose_eq holds (held live))) rfl)]
  exact others rest held heap image holds

section
variable {first : Method (Heap platform) ε BoxedKey} {first' : Outcome ε AegisKey}
  {next : BoxedKey → Method (Heap platform) ε α} {next' : AegisKey → Outcome ε β}
  {rep : α → β → List (Block × List UInt8) → Prop}
  (made : Heap.Computes ledger borrowed first first' Rep)
include made

theorem in_scope (others : ∀ boxed key, first' = .ok key →
      Heap.Computes ledger (boxed.entry key :: borrowed) (next boxed) (next' key) rep) :
    Heap.Computes ledger borrowed (first >>= fun boxed => (next boxed).ensuring boxed.drop)
    (first' >>= next') rep :=
  Heap.Computes.inScope made (fun _ _ _ _ _ holds => drop_holds holds) others

theorem guarded (others : ∀ boxed key, first' = .ok key →
      Heap.Computes ledger (boxed.entry key :: borrowed) (next boxed)
      (next' key) fun found found' mine => rep found found' (boxed.entry key :: mine)) :
    Heap.Computes ledger borrowed (first >>= fun boxed => (next boxed).onFailure boxed.drop)
    (first' >>= next') rep :=
  Heap.Computes.guarded made (fun _ _ _ _ holds => drop_holds holds) others

end
end BoxedKey

variable (crates : Crates)

def argon2idRoot (passphrase salt : List UInt8) (memoryKib iterations : UInt32) :
    Method (Heap platform) AegisError BoxedKey := do
  let params ← Method.lift (Outcome.okOr .argon2
    (crates.argon2ParamsNew memoryKib iterations 1 (some MASTER_LEN)))
  let out ← Method.lift (Outcome.okOr .argon2 (crates.argon2idHash params passphrase salt))
  BoxedKey.new out.val

def derive (master tag : List UInt8) : Method (Heap platform) AegisError BoxedKey := do
  let raw ← Method.lift (hkdfSha256 crates master MASTER_SALT tag)
  BoxedKey.new raw.val

structure BoxedHierarchy where
  kEnc : BoxedKey
  kAuth : BoxedKey
  kMeta : BoxedKey
  kShard : BoxedKey
  kXts : BoxedKey
  kHandle : BoxedKey
  deriving DecidableEq

namespace BoxedHierarchy

/-- The fields are evaluated one after another; an error drops those that are there, the last one first. -/
def fromMaster (master : List UInt8) : Method (Heap platform) AegisError BoxedHierarchy := do
  let kEnc ← derive crates master Info.K_ENC
  Method.onFailure (do
    let kAuth ← derive crates master Info.K_AUTH
    Method.onFailure (do
      let kMeta ← derive crates master Info.K_META
      Method.onFailure (do
        let kShard ← derive crates master Info.K_SHARD
        Method.onFailure (do
          let kXts ← derive crates master Info.K_XTS
          Method.onFailure (do
            let kHandle ← derive crates master Info.K_HANDLE
            Method.onFailure (return ⟨kEnc, kAuth, kMeta, kShard, kXts, kHandle⟩) kHandle.drop)
              kXts.drop)
          kShard.drop) kMeta.drop) kAuth.drop) kEnc.drop

def domain (hierarchy : BoxedHierarchy) : Domain → BoxedKey
  | .enc => hierarchy.kEnc
  | .auth => hierarchy.kAuth
  | .«meta» => hierarchy.kMeta
  | .shard => hierarchy.kShard
  | .xts => hierarchy.kXts
  | .handle => hierarchy.kHandle

def drop (hierarchy : BoxedHierarchy) (heap : Heap platform) : Heap platform :=
  let heap := hierarchy.kEnc.drop heap
  let heap := hierarchy.kAuth.drop heap
  let heap := hierarchy.kMeta.drop heap
  let heap := hierarchy.kShard.drop heap
  let heap := hierarchy.kXts.drop heap
  hierarchy.kHandle.drop heap

def entries (boxed : BoxedHierarchy) (hierarchy : KeyHierarchy) : List (Block × List UInt8) :=
  [boxed.kEnc.entry hierarchy.kEnc, boxed.kAuth.entry hierarchy.kAuth,
    boxed.kMeta.entry hierarchy.kMeta,
    boxed.kShard.entry hierarchy.kShard, boxed.kXts.entry hierarchy.kXts,
      boxed.kHandle.entry hierarchy.kHandle]

def Rep (boxed : BoxedHierarchy) (hierarchy : KeyHierarchy) (mine : List (Block × List UInt8)) :
    Prop :=
  mine = boxed.entries hierarchy

end BoxedHierarchy

def createSlot (master : U8Array MASTER_LEN) (passphrase : List UInt8) (mCost tCost : UInt32)
    (draws : SlotDraws) :
    Method (Heap platform) AegisError KeySlot := do
  let slotKey ← argon2idRoot crates passphrase draws.salt.val mCost tCost
  Method.ensuring (do
    let exposed ← slotKey.exposed
    let sk ← Method.lift (U8Array.copyFromSlice 32 exposed)
    let cipher := AeadCipher.new .aes256Gcm sk
    let (nonce, ct) ← Method.lift (cipher.aeadSeal crates draws.fill master.val HEADER_MAGIC)
    let nonceArr ← Method.lift (U8Array.copyFromSlice NONCE_LEN nonce)
    let ctArr ← Method.lift (U8Array.copyFromSlice CT_LEN ct)
    return {
      slotId := draws.slotId
      kdfId := KDF_ID_ARGON2ID
      mCost := mCost
      tCost := tCost
      salt := draws.salt
      nonce := nonceArr
      ct := ctArr
      flags := 0b00000001
      createdAt := draws.now }) slotKey.drop

/-- `KeySlot::unseal`. The cipher returns the master in a plain `Vec`. -/
def unsealSlot (slot : KeySlot) (passphrase : List UInt8) :
    Method (Heap platform) AegisError BoxedKey := do
  let slotKey ← argon2idRoot crates passphrase slot.salt.val slot.mCost slot.tCost
  Method.ensuring (do
    let exposed ← slotKey.exposed
    let sk ← Method.lift (U8Array.copyFromSlice 32 exposed)
    let cipher := AeadCipher.new .aes256Gcm sk
    let plaintext ← Method.lift
      ((cipher.aeadOpen crates slot.nonce.val slot.ct.val HEADER_MAGIC).mapErr
      fun _ => .slotUnseal)
    let master ← Heap.vec plaintext
    Method.ensuring (do
      let bytes ← Heap.read master
      if bytes.length ≠ MASTER_LEN then Method.fail .slotUnseal
      else
        let arr ← Method.lift (U8Array.copyFromSlice MASTER_LEN bytes)
        BoxedKey.new32 arr) (Heap.free master)) slotKey.drop

def unsealFrom (passphrase : List UInt8) (i : Nat) :
    List KeySlot → Method (Heap platform) AegisError (Nat × BoxedKey)
  | [] => Method.fail .noSlotUnsealed
  | slot :: rest =>
    if !slot.isEnabled then unsealFrom passphrase (i + 1) rest
    else (unsealSlot crates slot passphrase).orOnError (fun master => (i, master))
      (unsealFrom passphrase (i + 1) rest)

def unsealWith (table : KeySlotTable) (passphrase : List UInt8) :
    Method (Heap platform) AegisError (Nat × BoxedKey) :=
  unsealFrom crates passphrase 0 table.slots

def newInitial (master : U8Array MASTER_LEN) (passphrase : List UInt8) (draws : TableDraws) :
    Method (Heap platform) AegisError KeySlotTable := do
  let slot ← createSlot crates master passphrase 64 3 draws.slot
  return {
    headerSalt := draws.headerSalt
    slots := [slot]
    verifier := volumeVerifier crates master }

variable {ledger : Heap.Ledger} {borrowed : List (Block × List UInt8)}

theorem argon2idRoot_computes (passphrase salt : List UInt8) (memoryKib iterations : UInt32) :
    Heap.Computes ledger borrowed (argon2idRoot crates passphrase salt memoryKib iterations :
      Method (Heap platform) _ _)
      (Crypto.argon2idRoot crates passphrase salt memoryKib iterations) BoxedKey.Rep := by
  apply Heap.Computes.lift_bind
  intro params _
  apply Heap.Computes.lift_bind
  intro out _
  exact BoxedKey.new_computes out.val

theorem derive_computes (master tag : List UInt8) :
    Heap.Computes ledger borrowed (derive crates master tag : Method (Heap platform) _ _)
      (Crypto.derive crates master tag) BoxedKey.Rep := by
  apply Heap.Computes.lift_bind
  intro raw _
  exact BoxedKey.new_computes raw.val

theorem BoxedHierarchy.fromMaster_computes (master : List UInt8) :
    Heap.Computes ledger borrowed (fromMaster crates master : Method (Heap platform) _ _)
      (KeyHierarchy.fromMaster crates master) Rep := by
  apply BoxedKey.guarded (derive_computes crates master Info.K_ENC)
  intro kEnc enc _
  apply BoxedKey.guarded (derive_computes crates master Info.K_AUTH)
  intro kAuth auth _
  apply BoxedKey.guarded (derive_computes crates master Info.K_META)
  intro kMeta meta' _
  apply BoxedKey.guarded (derive_computes crates master Info.K_SHARD)
  intro kShard shard _
  apply BoxedKey.guarded (derive_computes crates master Info.K_XTS)
  intro kXts xts _
  apply BoxedKey.guarded (derive_computes crates master Info.K_HANDLE)
  intro kHandle handle _
  exact Heap.Computes.pure rfl

theorem BoxedHierarchy.drop_holds {boxed : BoxedHierarchy} {hierarchy : KeyHierarchy}
    {heap : Heap platform} {contents : List (Block × List UInt8)}
    (holds : Heap.Holds ledger heap (boxed.entries hierarchy ++ contents)) :
    Heap.Holds ledger (boxed.drop heap) contents := by
  have holds := BoxedKey.drop_holds holds
  have holds := BoxedKey.drop_holds holds
  have holds := BoxedKey.drop_holds holds
  have holds := BoxedKey.drop_holds holds
  have holds := BoxedKey.drop_holds holds
  exact BoxedKey.drop_holds holds

theorem BoxedHierarchy.domain_entry (boxed : BoxedHierarchy) (hierarchy : KeyHierarchy)
    (d : Domain) :
    (boxed.domain d).entry (hierarchy.domain d) ∈ boxed.entries hierarchy := by
  cases d <;> simp [entries, domain, KeyHierarchy.domain]

theorem createSlot_computes (master : U8Array MASTER_LEN) (passphrase : List UInt8)
    (mCost tCost : UInt32) (draws : SlotDraws) :
    Heap.Computes ledger borrowed (createSlot crates master passphrase mCost tCost draws :
      Method (Heap platform) _ _)
      (KeySlot.create crates master passphrase mCost tCost draws) Heap.Plain := by
  apply BoxedKey.in_scope (argon2idRoot_computes crates passphrase draws.salt.val mCost tCost)
  intro slotKey key _
  apply BoxedKey.exposed_bind List.mem_cons_self
  apply Heap.Computes.lift_bind
  intro sk _
  apply Heap.Computes.lift_bind
  intro (nonce, ct) _
  apply Heap.Computes.lift_bind
  intro nonceArr _
  apply Heap.Computes.lift_bind
  intro ctArr _
  exact Heap.Computes.pure ⟨rfl, rfl⟩

theorem newInitial_computes (master : U8Array MASTER_LEN) (passphrase : List UInt8)
    (draws : TableDraws) :
    Heap.Computes ledger borrowed
      (newInitial crates master passphrase draws : Method (Heap platform) _ _)
      (KeySlotTable.newInitial crates master passphrase draws) Heap.Plain := by
  apply (createSlot_computes crates master passphrase 64 3 draws.slot).bind_plain
  intro slot _
  exact Heap.Computes.pure ⟨rfl, rfl⟩

/-- What the slot's cipher returns under the passphrase, of whatever length. -/
def Reveals (slot : KeySlot) (passphrase plaintext : List UInt8) : Prop :=
  ∃ key, DerivesKey crates slot passphrase key ∧
    crates.aes256GcmDecrypt key slot.nonce slot.ct.val HEADER_MAGIC = some plaintext

def Spills (ledger : Heap.Ledger) (passphrase : List UInt8) (slot : KeySlot) : Prop :=
  ∀ plaintext, Reveals crates slot passphrase plaintext → ledger.allowed plaintext

theorem unsealSlot_computes {slot : KeySlot} {passphrase : List UInt8}
    (spills : Spills crates ledger passphrase slot) :
    Heap.Computes ledger borrowed (unsealSlot crates slot passphrase : Method (Heap platform) _ _)
      (slot.unsealSlot crates passphrase) BoxedKey.Rep := by
  apply BoxedKey.in_scope (argon2idRoot_computes crates passphrase slot.salt.val
    slot.mCost slot.tCost)
  intro slotKey key derived
  apply BoxedKey.exposed_bind List.mem_cons_self
  apply Heap.Computes.lift_bind
  intro sk copied
  apply Heap.Computes.lift_bind
  intro plaintext opened
  have keyed : DerivesKey crates slot passphrase sk := by
    rw [DerivesKey, derived, AegisKey.new32, (U8Array.copyFromSlice_eq_ok_iff _ _).mp copied]
    rfl
  have decrypted : crates.aes256GcmDecrypt sk slot.nonce slot.ct.val HEADER_MAGIC =
    some plaintext := by
    have returned := (Outcome.mapErr_eq_ok_iff _ _ _).mp opened
    rw [AeadCipher.aeadOpen_val crates (AeadCipher.new .aes256Gcm sk) slot.nonce] at returned
    exact (Outcome.okOr_eq_ok_iff _ _ _).mp returned
  have made : Heap.Computes ledger (slotKey.entry key :: borrowed)
    (Heap.vec plaintext : Method (Heap platform) AegisError _)
      (.ok plaintext) fun block bytes mine => mine = [(block, bytes)] := Heap.Computes.vec plaintext
  change Heap.Computes _ _ _ (Outcome.ok plaintext >>= fun bytes => if bytes.length ≠
    MASTER_LEN then
    .err AegisError.slotUnseal else U8Array.copyFromSlice MASTER_LEN bytes >>= fun arr =>
      .ok (AegisKey.new32 arr)) _
  refine Heap.Computes.inScope made ?_ ?_
  · intro master bytes same heap contents holds
    cases same
    exact holds.free (Or.inr (spills plaintext ⟨sk, keyed, decrypted⟩))
  · intro master bytes same
    apply Heap.Computes.read_bind List.mem_cons_self
    split
    · exact Heap.Computes.fail _
    · apply Heap.Computes.lift_bind
      intro arr _
      exact BoxedKey.new_computes arr.val

def Found (one : Nat × BoxedKey) (other : Nat × AegisKey) (mine : List (Block × List UInt8)) :
    Prop :=
  one.1 = other.1 ∧ one.2.Rep other.2 mine

theorem unsealFrom_computes {passphrase : List UInt8} {slots : List KeySlot} (i : Nat)
    (spills : ∀ slot ∈ slots, slot.isEnabled = true → Spills crates ledger passphrase slot) :
    Heap.Computes ledger borrowed
      (unsealFrom crates passphrase i slots : Method (Heap platform) _ _)
      (KeySlotTable.unsealFrom crates passphrase i slots) Found := by
  induction slots generalizing i with
  | nil => exact Heap.Computes.fail _
  | cons slot slots ih =>
    have later := ih (i + 1) fun other member => spills other (List.mem_cons_of_mem _ member)
    rw [unsealFrom, KeySlotTable.unsealFrom]
    by_cases enabled : slot.isEnabled = true
    · have here : ¬(!slot.isEnabled) = true := by rw [enabled]; exact Bool.false_ne_true
      rw [if_neg here, if_neg here]
      intro rest held heap image holds
      have ended := unsealSlot_computes crates (spills slot List.mem_cons_self enabled)
        rest held heap image holds
      unfold Method.orOnError
      rw [Method.lift_apply] at ended ⊢
      generalize unsealSlot crates slot passphrase heap = one at ended
      generalize slot.unsealSlot crates passphrase = two at ended
      cases ended with
      | ok after =>
        obtain ⟨mine, related, held⟩ := after
        exact .ok ⟨mine, ⟨rfl, related⟩, held⟩
      | err after => exact later rest held _ image after
      | panic after => exact .panic after
    · have passedOver : (!slot.isEnabled) = true := by rw [Bool.eq_false_iff.mpr enabled]; rfl
      rw [if_pos passedOver, if_pos passedOver]
      exact later

theorem unsealWith_computes {table : KeySlotTable} {passphrase : List UInt8}
    (spills : ∀ slot ∈ table.slots, slot.isEnabled = true → Spills crates ledger passphrase slot) :
    Heap.Computes ledger borrowed (unsealWith crates table passphrase : Method (Heap platform) _ _)
      (table.unsealWith crates passphrase) Found :=
  unsealFrom_computes crates 0 spills

end SoteriaAegis.Memory
