import SoteriaAegis.Slots.Wire

/-! What the parser accepts, what it answers, and where it panics, for every byte string. -/

namespace SoteriaAegis.Slots.KeySlotTable
open Rust Crypto
variable (crates : Crates)

theorem bodyBytes_length (table : KeySlotTable) :
    table.bodyBytes.length = 38 + table.slots.length * 110 := by
  have slots := flatMap_length_of_width slotBytes_length table.slots
  have magic : HEADER_MAGIC.length = 4 := by decide
  simp only [bodyBytes, List.length_append, slots, magic, List.length_singleton, U8Array.length_val]
  omega

theorem bodyBytes_split (table : KeySlotTable) :
    table.bodyBytes = [0x53, 0x4F, 0x54, 0x4B, 1, UInt8.ofNat table.slots.length] ++
      (table.slots.flatMap slotBytes ++ table.verifier.val) := by
  have magic : HEADER_MAGIC = [0x53, 0x4F, 0x54, 0x4B] := by decide
  simp only [bodyBytes, magic, HEADER_VERSION, List.cons_append, List.nil_append]

theorem parseBody_eq (body : List UInt8) (headerSalt : U8Array 32) (long : 5 ≤ body.length) :
    parseBody body headerSalt =
      if body.take 4 = HEADER_MAGIC ∧ body[4]? = some HEADER_VERSION then
        match body[5]? with
        | some slotCount => (readTable body slotCount.toNat headerSalt 6).1
        | none => .panic
      else .err .serialization := by
  rw [parseBody, sliceRange_front (by omega), Outcome.ok_bind]
  by_cases magic : body.take 4 = HEADER_MAGIC
  · have version : (Outcome.index body 4 : AegisResult UInt8) = .ok body[4] := Outcome.index_of_lt body 4 long
    have found : body[4]? = some body[4] := List.getElem?_eq_getElem long
    simp only [magic, ne_eq, not_true, if_false, version, Outcome.ok_bind, found, true_and, Option.some.injEq]
    by_cases same : body[4] = HEADER_VERSION
    · simp only [same, not_true, if_false, if_true, Outcome.index]
      cases body[5]? with
      | some slotCount => rfl
      | none => rfl
    · simp only [same, not_false_eq_true, if_true, if_false]
  · simp only [magic, ne_eq, not_false_eq_true, if_true, false_and, if_false]

theorem header_split {body : List UInt8} {count : UInt8} (magic : body.take 4 = HEADER_MAGIC)
    (version : body[4]? = some HEADER_VERSION) (counted : body[5]? = some count) :
    body = [0x53, 0x4F, 0x54, 0x4B, 1, count] ++ body.drop 6 := by
  match body, counted with
  | a :: b :: c :: d :: e :: f :: rest, counted =>
    have bytes : [a, b, c, d] = [0x53, 0x4F, 0x54, 0x4B] := magic
    have versionByte : e = 1 := Option.some.inj version
    have countByte : f = count := Option.some.inj counted
    cases bytes
    rw [versionByte, countByte]
    rfl

/-- Accepted bodies are those of a table with at most 255 slots, with any bytes behind. -/
theorem parseBody_eq_ok_iff (body : List UInt8) (headerSalt : U8Array 32) (table : KeySlotTable)
    (long : 5 ≤ body.length) :
    parseBody body headerSalt = .ok table ↔
      ∃ extra, body = table.bodyBytes ++ extra ∧ table.headerSalt = headerSalt ∧ table.slots.length < 256 := by
  rw [parseBody_eq body headerSalt long]
  constructor
  · intro parsed
    split at parsed
    next header =>
      cases counted : body[5]? with
      | none => rw [counted] at parsed; cases parsed
      | some count =>
        rw [counted] at parsed
        have start : 6 ≤ body.length := (List.getElem?_eq_some_iff.mp counted).1
        have split := header_split header.1 header.2 counted
        obtain ⟨inside, _, salt, slots, encoded⟩ :=
          (readTable_follows body count.toNat headerSalt).inside_of_ok start (Prod.ext parsed rfl)
        refine ⟨body.drop (6 + (tableShape count.toNat).width), ?_, salt, slots ▸ count.toNat_lt⟩
        rw [bodyBytes_split, slots, UInt8.ofNat_toNat, encoded, List.append_assoc, window,
          ← List.drop_drop, List.take_append_drop]
        exact split
    next => cases parsed
  · rintro ⟨extra, shape, salt, small⟩
    rw [bodyBytes_split, List.append_assoc] at shape
    have count : (UInt8.ofNat table.slots.length).toNat = table.slots.length := by
      rw [UInt8.toNat_ofNat']
      exact Nat.mod_eq_of_lt small
    have header : body.take 4 = HEADER_MAGIC ∧ body[4]? = some HEADER_VERSION := by
      rw [shape]
      exact ⟨rfl, rfl⟩
    have counted : body[5]? = some (UInt8.ofNat table.slots.length) := by
      rw [shape]
      rfl
    have width : (table.slots.flatMap slotBytes ++ table.verifier.val).length =
        (tableShape table.slots.length).width := by
      rw [List.length_append, flatMap_length_of_width slotBytes_length, U8Array.length_val]
      rfl
    have fits : 6 + (tableShape table.slots.length).width ≤ body.length := by
      rw [← width, shape]
      simp only [List.length_append, List.length_cons, List.length_nil]
      omega
    have content : window body 6 (tableShape table.slots.length).width =
        table.slots.flatMap slotBytes ++ table.verifier.val := by
      rw [← width, shape, ← List.append_assoc]
      exact window_append [0x53, 0x4F, 0x54, 0x4B, 1, UInt8.ofNat table.slots.length] _ extra
    obtain ⟨found, ran, foundSalt, foundCount, encoded⟩ :=
      (readTable_follows body table.slots.length headerSalt).full 6 fits
    rw [content] at encoded
    obtain ⟨slots, verifier⟩ := List.append_inj encoded (by
      rw [flatMap_length_of_width slotBytes_length, flatMap_length_of_width slotBytes_length, foundCount])
    have sameSlots := flatMap_injective_of_width slotBytes_length slotBytes_injective foundCount slots
    rw [if_pos header, counted]
    simp only [count, ran, Outcome.ok.injEq]
    cases found
    cases table
    simp only at sameSlots verifier foundSalt salt
    rw [foundSalt, salt, sameSlots, Subtype.ext verifier]

/-- The bodies whose end a raw index of the parser meets: right behind the version, or
right before the `kdf_id` or the `flags` of one of the announced slots. -/
def CutAtRawIndex (body : List UInt8) : Prop :=
  body.take 4 = HEADER_MAGIC ∧ body[4]? = some HEADER_VERSION ∧
    (body.length = 5 ∨ ∃ slotCount ∈ body[5]?, body.length - 6 < slotCount.toNat * 110 ∧
      ((body.length - 6) % 110 = 16 ∨ (body.length - 6) % 110 = 101))

theorem parseBody_eq_panic_iff (body : List UInt8) (headerSalt : U8Array 32) (long : 5 ≤ body.length) :
    parseBody body headerSalt = .panic ↔ CutAtRawIndex body := by
  rw [parseBody_eq body headerSalt long, CutAtRawIndex, ← and_assoc]
  by_cases header : body.take 4 = HEADER_MAGIC ∧ body[4]? = some HEADER_VERSION
  · rw [if_pos header]
    simp only [header, true_and]
    by_cases five : body.length = 5
    · have ended : body[5]? = none := List.getElem?_eq_none (by omega)
      simp only [ended, five, true_or]
    · have start : 6 ≤ body.length := by omega
      have counted : body[5]? = some body[5] := List.getElem?_eq_getElem start
      have follows := readTable_follows body body[5].toNat headerSalt
      simp only [counted, five, false_or, Option.mem_def, Option.some.injEq, exists_eq_left']
      by_cases inside : 6 + (tableShape body[5].toNat).width ≤ body.length
      · obtain ⟨table, ran, _⟩ := follows.full 6 inside
        simp only [tableShape] at inside
        simp only [ran, reduceCtorEq, false_iff]
        omega
      · rw [follows.cut 6 start (Nat.lt_of_not_le inside), stop_eq_panic_iff]
        simp only [tableShape, ite_eq_left_iff, reduceCtorEq, imp_false, not_not]
  · rw [if_neg header]
    simp only [header, false_and, reduceCtorEq]

def TrailerValid (data : List UInt8) (headerSalt : U8Array 32) : Prop :=
  5 + OUT_LEN ≤ data.length ∧
    (crates.blake3KeyedHash headerSalt (data.take (data.length - OUT_LEN))).val =
      data.drop (data.length - OUT_LEN)

theorem TrailerValid.body_long {crates : Crates} {data : List UInt8} {headerSalt : U8Array 32}
    (valid : TrailerValid crates data headerSalt) : 5 ≤ (data.take (data.length - OUT_LEN)).length := by
  have bound := valid.1
  rw [List.length_take]
  omega

theorem fromBytes_eq (data : List UInt8) (headerSalt : U8Array 32) :
    fromBytes crates data headerSalt =
      if data.length < 5 + OUT_LEN then .err .serialization
      else if (crates.blake3KeyedHash headerSalt (data.take (data.length - OUT_LEN))).val ≠
          data.drop (data.length - OUT_LEN) then .err .headerIntegrity
      else parseBody (data.take (data.length - OUT_LEN)) headerSalt := by
  simp only [fromBytes, sliceRange_front (Nat.sub_le data.length OUT_LEN),
    sliceRange_back (Nat.sub_le data.length OUT_LEN), Outcome.ok_bind]

theorem fromBytes_of_valid {data : List UInt8} {headerSalt : U8Array 32}
    (valid : TrailerValid crates data headerSalt) :
    fromBytes crates data headerSalt = parseBody (data.take (data.length - OUT_LEN)) headerSalt := by
  rw [fromBytes_eq, if_neg (Nat.not_lt.mpr valid.1), if_neg (not_not.mpr valid.2)]

theorem fromBytes_of_invalid {data : List UInt8} {headerSalt : U8Array 32}
    (invalid : ¬TrailerValid crates data headerSalt) :
    ∃ error, fromBytes crates data headerSalt = .err error := by
  rw [fromBytes_eq]
  by_cases short : data.length < 5 + OUT_LEN
  · exact ⟨.serialization, if_pos short⟩
  · have differs : (crates.blake3KeyedHash headerSalt (data.take (data.length - OUT_LEN))).val ≠
        data.drop (data.length - OUT_LEN) := fun same => invalid ⟨Nat.le_of_not_lt short, same⟩
    exact ⟨.headerIntegrity, by rw [if_neg short, if_pos differs]⟩

/-- Exactly what the parser accepts: a table's body, any bytes behind it, and their MAC. -/
theorem fromBytes_eq_ok_iff (data : List UInt8) (headerSalt : U8Array 32) (table : KeySlotTable) :
    fromBytes crates data headerSalt = .ok table ↔
      table.headerSalt = headerSalt ∧ table.slots.length < 256 ∧ ∃ extra,
        data = table.bodyBytes ++ extra ++ (crates.blake3KeyedHash headerSalt (table.bodyBytes ++ extra)).val := by
  constructor
  · intro accepted
    have valid : TrailerValid crates data headerSalt := by
      by_contra invalid
      obtain ⟨error, refused⟩ := fromBytes_of_invalid crates invalid
      rw [accepted] at refused
      cases refused
    rw [fromBytes_of_valid crates valid, parseBody_eq_ok_iff _ _ _ valid.body_long] at accepted
    obtain ⟨extra, body, salt, small⟩ := accepted
    refine ⟨salt, small, extra, ?_⟩
    rw [← body, valid.2, List.take_append_drop]
  · rintro ⟨salt, small, extra, shape⟩
    have lengths := congrArg List.length shape
    rw [List.length_append, U8Array.length_val] at lengths
    have bodyLength := bodyBytes_length table
    have outLen : OUT_LEN = 32 := rfl
    have split : data.length - OUT_LEN = (table.bodyBytes ++ extra).length := by omega
    have body : data.take (data.length - OUT_LEN) = table.bodyBytes ++ extra := by
      rw [split, shape, List.take_left]
    have mac : data.drop (data.length - OUT_LEN) =
        (crates.blake3KeyedHash headerSalt (table.bodyBytes ++ extra)).val := by
      rw [split, shape, List.drop_left]
    have valid : TrailerValid crates data headerSalt := by
      refine ⟨?_, by rw [body, mac]⟩
      rw [List.length_append] at lengths
      omega
    rw [fromBytes_of_valid crates valid, parseBody_eq_ok_iff _ _ _ valid.body_long]
    exact ⟨extra, body, salt, small⟩

/-- The parser returns, unless a raw index meets the end of a body with a valid trailer. -/
theorem fromBytes_ne_panic_iff (data : List UInt8) (headerSalt : U8Array 32) :
    fromBytes crates data headerSalt ≠ .panic ↔
      ¬(TrailerValid crates data headerSalt ∧ CutAtRawIndex (data.take (data.length - OUT_LEN))) := by
  by_cases valid : TrailerValid crates data headerSalt
  · rw [fromBytes_of_valid crates valid, ne_eq, parseBody_eq_panic_iff _ _ valid.body_long]
    simp only [valid, true_and]
  · obtain ⟨error, refused⟩ := fromBytes_of_invalid crates valid
    simp only [refused, valid, false_and, not_false_eq_true, ne_eq, reduceCtorEq]

/-- Magic and version alone, with their MAC: the slot count is read behind the body. -/
theorem fromBytes_panics_on_bare_header :
    fromBytes checksumCrates ([0x53, 0x4F, 0x54, 0x4B, 1] ++
      (checksumCrates.blake3KeyedHash (U8Array.zeros 32) [0x53, 0x4F, 0x54, 0x4B, 1]).val)
      (U8Array.zeros 32) = .panic := by
  decide +kernel

theorem fromBytes_toBytes (table : KeySlotTable) (small : table.slots.length < 256) :
    fromBytes crates (table.toBytes crates) table.headerSalt = .ok table :=
  (fromBytes_eq_ok_iff crates _ _ _).mpr ⟨rfl, small, [], by rw [List.append_nil, toBytes]⟩

/-- The input is as long as its slot count says: no byte between verifier and trailer. -/
def ExactLength (data : List UInt8) : Prop :=
  ∃ slotCount ∈ data[5]?, data.length = 6 + slotCount.toNat * 110 + 32 + OUT_LEN

theorem exactLength_iff (table : KeySlotTable) (small : table.slots.length < 256) (extra mac : List UInt8)
    (macLength : mac.length = OUT_LEN) :
    ExactLength (table.bodyBytes ++ extra ++ mac) ↔ extra = [] := by
  have counted : (table.bodyBytes ++ extra ++ mac)[5]? = some (UInt8.ofNat table.slots.length) := by
    rw [bodyBytes_split]
    rfl
  have count : (UInt8.ofNat table.slots.length).toNat = table.slots.length := by
    rw [UInt8.toNat_ofNat']
    exact Nat.mod_eq_of_lt small
  simp only [ExactLength, counted, Option.mem_def, Option.some.injEq, exists_eq_left', count,
    List.length_append, bodyBytes_length, macLength]
  rw [← List.length_eq_zero_iff]
  omega

/-- On accepted input: writing the table gives the input back exactly when no byte hides
behind the verifier, and inputs without such bytes are determined by their table. -/
theorem accepted_canonical_iff (data : List UInt8) (headerSalt : U8Array 32) (table : KeySlotTable)
    (accepted : fromBytes crates data headerSalt = .ok table) :
    (table.toBytes crates = data ↔ ExactLength data) ∧
      ∀ other, fromBytes crates other headerSalt = .ok table → ExactLength data →
        (other = data ↔ ExactLength other) := by
  have written : ∀ input, fromBytes crates input headerSalt = .ok table →
      (table.toBytes crates = input ↔ ExactLength input) := by
    intro input read
    obtain ⟨salt, small, extra, rfl⟩ := (fromBytes_eq_ok_iff crates _ _ _).mp read
    rw [exactLength_iff table small extra _ (U8Array.length_val _)]
    constructor
    · intro same
      have lengths := congrArg List.length same
      simp only [toBytes, List.length_append, U8Array.length_val] at lengths
      exact List.length_eq_zero_iff.mp (by omega)
    · rintro rfl
      rw [toBytes, List.append_nil, salt]
  refine ⟨written data accepted, fun other otherAccepted exactData => ?_⟩
  have back := (written data accepted).mpr exactData
  rw [← written other otherAccepted, back, eq_comm]

def bare : KeySlotTable := ⟨U8Array.zeros 32, [], U8Array.zeros 32⟩

def revokedPair : KeySlotTable where
  headerSalt := ⟨List.replicate 32 9, rfl⟩
  slots := [
    { slotId := ⟨List.replicate 16 1, rfl⟩, kdfId := 1, mCost := 64, tCost := 3,
      salt := ⟨List.replicate 16 2, rfl⟩, nonce := ⟨List.replicate 12 3, rfl⟩,
      ct := ⟨List.replicate 48 4, rfl⟩, flags := 1, createdAt := 1700000000 },
    { slotId := ⟨List.replicate 16 5, rfl⟩, kdfId := 1, mCost := 128, tCost := 4,
      salt := ⟨List.replicate 16 6, rfl⟩, nonce := ⟨List.replicate 12 7, rfl⟩,
      ct := U8Array.zeros CT_LEN, flags := 0, createdAt := 1800000000 }]
  verifier := ⟨List.replicate 32 8, rfl⟩

theorem revokedPair_canonical :
    ExactLength (revokedPair.toBytes checksumCrates) ∧
      ∀ other, fromBytes checksumCrates other revokedPair.headerSalt = .ok revokedPair →
        (other = revokedPair.toBytes checksumCrates ↔ ExactLength other) := by
  have read := fromBytes_toBytes checksumCrates revokedPair (by decide)
  obtain ⟨written, others⟩ := accepted_canonical_iff checksumCrates _ _ revokedPair read
  have exact := written.mp rfl
  exact ⟨exact, fun other accepted => others other accepted exact⟩

/-- One byte between verifier and trailer, under a recomputed MAC, is read past in silence. -/
theorem accepts_hidden_byte :
    let padded := bare.bodyBytes ++ [7]
    let data := padded ++ (checksumCrates.blake3KeyedHash bare.headerSalt padded).val
    fromBytes checksumCrates data bare.headerSalt = .ok bare ∧ bare.toBytes checksumCrates ≠ data := by
  decide +kernel

end SoteriaAegis.Slots.KeySlotTable
