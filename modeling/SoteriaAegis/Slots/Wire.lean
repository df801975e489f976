import SoteriaAegis.Slots.Table
import SoteriaAegis.Rust.Decoder

/-! The `SOTK` format: the serialiser, the parser, and the bytes each of the parser's
readers consumes. -/

namespace SoteriaAegis.Slots
open Rust Crypto

abbrev OUT_LEN : Nat := 32

def sliceAt (buf : List UInt8) (n : Nat) : Decoder AegisError (List UInt8) := do
  let p ← Method.self
  if buf.length < p + n then Method.fail .serialization
  else
    let s ← Method.lift (sliceRange buf p (p + n))
    Method.update (· + n)
    return s

def fieldAt (buf : List UInt8) (n : Nat) : Decoder AegisError (U8Array n) := do
  let s ← sliceAt buf n
  Method.lift (Outcome.okOr .serialization (U8Array.tryFrom n s))

namespace KeySlotTable
variable (crates : Crates)

def slotBytes (s : KeySlot) : List UInt8 :=
  s.slotId.val ++ [s.kdfId] ++ (u32ToLeBytes s.mCost).val ++ (u32ToLeBytes s.tCost).val ++ s.salt.val ++
    s.nonce.val ++ s.ct.val ++ [s.flags] ++ (u64ToLeBytes s.createdAt).val

def bodyBytes (table : KeySlotTable) : List UInt8 :=
  HEADER_MAGIC ++ [HEADER_VERSION] ++ [UInt8.ofNat table.slots.length] ++ table.slots.flatMap slotBytes ++
    table.verifier.val

def toBytes (table : KeySlotTable) : List UInt8 :=
  table.bodyBytes ++ (crates.blake3KeyedHash table.headerSalt table.bodyBytes).val

/-- One round of the parser's loop. Most fields go through `slice_at`; `kdf_id` and
`flags` are raw indices. -/
def readSlot (body : List UInt8) : Decoder AegisError KeySlot := do
  let slotId ← fieldAt body 16
  let kdfId ← rawByte body
  let mCost ← fieldAt body 4
  let tCost ← fieldAt body 4
  let salt ← fieldAt body 16
  let nonce ← fieldAt body NONCE_LEN
  let ct ← fieldAt body CT_LEN
  let flags ← rawByte body
  let createdAt ← fieldAt body 8
  return {
    slotId := slotId
    kdfId := kdfId
    mCost := u32FromLeBytes mCost
    tCost := u32FromLeBytes tCost
    salt := salt
    nonce := nonce
    ct := ct
    flags := flags
    createdAt := u64FromLeBytes createdAt }

/-- The part of `from_bytes` that moves `pos`. -/
def readTable (body : List UInt8) (slotCount : Nat) (headerSalt : U8Array 32) :
    Decoder AegisError KeySlotTable := do
  let slots ← collect (readSlot body) slotCount []
  let verifier ← fieldAt body 32
  return { headerSalt := headerSalt, slots := slots, verifier := verifier }

def parseBody (body : List UInt8) (headerSalt : U8Array 32) : AegisResult KeySlotTable := do
  let magic ← sliceRange body 0 4
  if magic ≠ HEADER_MAGIC then .err .serialization
  else
    let version ← Outcome.index body 4
    if version ≠ HEADER_VERSION then .err .serialization
    else
      let slotCount ← Outcome.index body 5
      (readTable body slotCount.toNat headerSalt 6).1

def fromBytes (data : List UInt8) (headerSalt : U8Array 32) : AegisResult KeySlotTable :=
  if data.length < 5 + OUT_LEN then .err .serialization
  else do
    let split := data.length - OUT_LEN
    let body ← sliceRange data 0 split
    let mac ← sliceRange data split data.length
    let expected := crates.blake3KeyedHash headerSalt body
    if expected.val ≠ mac then .err .headerIntegrity
    else parseBody body headerSalt

end KeySlotTable

theorem sliceAt_follows (buf : List UInt8) (n : Nat) :
    Follows buf (sliceAt buf n) ⟨n, fun _ => some .serialization⟩ (fun slice bytes => slice = bytes) where
  full pos inside := by
    have fits : ¬buf.length < pos + n := Nat.not_lt.mpr inside
    refine ⟨window buf pos n, ?_, rfl⟩
    simp only [sliceAt, Method.bind_apply, Method.self_apply, fits, if_false, Method.lift_apply,
      sliceRange_ok buf pos (pos + n) (Nat.le_add_right pos n) inside, Nat.add_sub_cancel_left,
      Method.update_apply, Method.pure_apply, window]
  cut pos inside short := by
    have short' : buf.length < pos + n := short
    simp only [sliceAt, Method.bind_apply, Method.self_apply, short', if_true, Method.fail_apply, stop]

theorem fieldAt_follows (buf : List UInt8) (n : Nat) :
    Follows buf (fieldAt buf n) ⟨n, fun _ => some .serialization⟩ (fun array bytes => array.val = bytes) where
  full pos inside := by
    obtain ⟨slice, ran, same⟩ := (sliceAt_follows buf n).full pos inside
    have length : slice.length = n := same ▸ window_length buf pos n inside
    refine ⟨⟨slice, length⟩, ?_, same⟩
    rw [fieldAt, Method.bind_of_ok _ _ ran]
    simp only [U8Array.tryFrom, dif_pos length, Outcome.okOr_some, Method.lift_apply]
  cut pos inside short := by
    have stopped := (sliceAt_follows buf n).cut pos inside short
    cases run : sliceAt buf n pos with
    | mk result after =>
      rw [run] at stopped
      change result = .err .serialization at stopped
      subst stopped
      rw [fieldAt, Method.bind_of_err _ _ run]
      rfl

/-- The nine fields of a slot: a panic where a raw index meets the end of the body. -/
def slotShape : Shape AegisError where
  width := 110
  short left := if left = 16 ∨ left = 101 then none else some .serialization

namespace KeySlotTable

theorem slotBytes_length (slot : KeySlot) : (slotBytes slot).length = 110 := by
  simp only [slotBytes, List.length_append, U8Array.length_val, List.length_singleton, NONCE_LEN, CT_LEN,
    MASTER_LEN, TAG_LEN]

theorem slotBytes_injective : Function.Injective slotBytes := by
  intro first second same
  simp only [slotBytes, List.append_assoc] at same
  obtain ⟨slotId, same⟩ := List.append_inj same (by simp)
  obtain ⟨kdfId, same⟩ := List.append_inj same (by simp)
  obtain ⟨mCost, same⟩ := List.append_inj same (by simp)
  obtain ⟨tCost, same⟩ := List.append_inj same (by simp)
  obtain ⟨salt, same⟩ := List.append_inj same (by simp)
  obtain ⟨nonce, same⟩ := List.append_inj same (by simp)
  obtain ⟨ct, same⟩ := List.append_inj same (by simp)
  obtain ⟨flags, createdAt⟩ := List.append_inj same (by simp)
  have mCostEq := u32ToLeBytes_injective (Subtype.ext mCost)
  have tCostEq := u32ToLeBytes_injective (Subtype.ext tCost)
  have createdAtEq := u64ToLeBytes_injective (Subtype.ext createdAt)
  cases first
  cases second
  simp only [KeySlot.mk.injEq]
  exact ⟨Subtype.ext slotId, List.singleton_inj.mp kdfId, mCostEq, tCostEq, Subtype.ext salt,
    Subtype.ext nonce, Subtype.ext ct, List.singleton_inj.mp flags, createdAtEq⟩

/-- The parser's loop body consumes 110 bytes, the ones `to_bytes` writes for its slot. -/
theorem readSlot_follows (body : List UInt8) :
    Follows body (readSlot body) slotShape (fun slot bytes => slotBytes slot = bytes) := by
  have fields :=
    (fieldAt_follows body 16).bind fun slotId => (rawByte_follows body).bind fun kdfId =>
    (fieldAt_follows body 4).bind fun mCost => (fieldAt_follows body 4).bind fun tCost =>
    (fieldAt_follows body 16).bind fun salt => (fieldAt_follows body NONCE_LEN).bind fun nonce =>
    (fieldAt_follows body CT_LEN).bind fun ct => (rawByte_follows body).bind fun flags =>
    (fieldAt_follows body 8).bind fun createdAt => Follows.pure (KeySlot.mk slotId kdfId
      (u32FromLeBytes mCost) (u32FromLeBytes tCost) salt nonce ct flags (u64FromLeBytes createdAt))
  refine ⟨fun pos inside => ?_, fun pos inside short => ?_⟩
  · obtain ⟨slot, ran, slotId, idBytes, kdfId, kdfBytes, mCost, mBytes, tCost, tBytes, salt, saltBytes,
      nonce, nonceBytes, ct, ctBytes, flags, flagsBytes, createdAt, atBytes, made, ended⟩ :=
      fields.full pos inside
    refine ⟨slot, ran, ?_⟩
    rw [made, slotBytes]
    simp only [u32ToLeBytes_fromLeBytes, u64ToLeBytes_fromLeBytes, idBytes, ← kdfBytes, mBytes, tBytes,
      saltBytes, nonceBytes, ctBytes, ← flagsBytes, atBytes, List.append_assoc]
    rw [← List.append_nil (List.take 8 _), ← ended]
    simp only [List.take_append_drop]
    rfl
  · rw [show (readSlot body pos).1 = _ from fields.cut pos inside short]
    have left : body.length - pos < 110 := by
      have bound : body.length < pos + 110 := short
      omega
    simp only [Shape.seq, Shape.empty, slotShape, NONCE_LEN, CT_LEN, MASTER_LEN, TAG_LEN]
    generalize body.length - pos = rest at left
    clear short
    split_ifs <;> first | rfl | omega

def tableShape (slotCount : Nat) : Shape AegisError where
  width := slotCount * 110 + 32
  short left :=
    if left < slotCount * 110 ∧ (left % 110 = 16 ∨ left % 110 = 101) then none else some .serialization

theorem readTable_follows (body : List UInt8) (slotCount : Nat) (headerSalt : U8Array 32) :
    Follows body (readTable body slotCount headerSalt) (tableShape slotCount) (fun table bytes =>
      table.headerSalt = headerSalt ∧ table.slots.length = slotCount ∧
        table.slots.flatMap slotBytes ++ table.verifier.val = bytes) := by
  have parts := (collect_follows (readSlot_follows body) slotCount []).bind fun slots =>
    (fieldAt_follows body 32).bind fun verifier => Follows.pure (KeySlotTable.mk headerSalt slots verifier)
  refine ⟨fun pos inside => ?_, fun pos inside short => ?_⟩
  · obtain ⟨table, ran, slots, ⟨new, grown, counted, encoded⟩, verifier, verifierBytes, made, ended⟩ :=
      parts.full pos inside
    rw [List.nil_append] at grown
    subst grown
    refine ⟨table, ran, ?_⟩
    rw [made]
    refine ⟨rfl, counted, ?_⟩
    rw [encoded, verifierBytes, ← List.append_nil (List.take 32 _), ← ended]
    simp only [List.take_append_drop]
    rfl
  · rw [show (readTable body slotCount headerSalt pos).1 = _ from parts.cut pos inside short]
    have left : body.length - pos < slotCount * 110 + 32 := by
      have bound : body.length < pos + (slotCount * 110 + 32) := short
      omega
    simp only [Shape.seq, Shape.times, Shape.empty, slotShape, tableShape]
    generalize body.length - pos = rest at left
    by_cases early : rest < slotCount * 110
    · simp only [early, if_true, true_and]
    · simp only [early, if_false, false_and]
      rw [if_pos (by omega)]

end KeySlotTable
end SoteriaAegis.Slots
