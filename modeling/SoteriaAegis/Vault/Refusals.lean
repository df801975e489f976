import SoteriaAegis.Vault.Calls

/-! Why a stored table is refused. The errors of the parser, of the search for a slot and of the
verifier check, each with exactly the bytes, tables and passphrases that meet it. -/

namespace SoteriaAegis.Slots.KeySlotTable
open Rust Crypto
variable {crates : Crates} {body data : List UInt8} {headerSalt : U8Array 32} {error : AegisError}

def StartsWithTable (body : List UInt8) : Prop :=
  ∃ (table : KeySlotTable) (extra : List UInt8), table.slots.length < 256 ∧
    body = table.bodyBytes ++ extra

theorem parseBody_err (long : 5 ≤ body.length) (refused : parseBody body headerSalt = .err error) :
    error = .serialization := by
  rw [parseBody_eq body headerSalt long] at refused
  split at refused
  next header =>
    cases counted : body[5]? with
    | none =>
      rw [counted] at refused
      cases refused
    | some count =>
      rw [counted] at refused
      change (readTable body count.toNat headerSalt 6).1 = .err error at refused
      have start : 6 ≤ body.length := (List.getElem?_eq_some_iff.mp counted).1
      have follows := readTable_follows body count.toNat headerSalt
      by_cases inside : 6 + (tableShape count.toNat).width ≤ body.length
      · obtain ⟨table, ran, _⟩ := follows.full 6 inside
        rw [ran] at refused
        cases refused
      · rw [follows.cut 6 start (Nat.lt_of_not_le inside)] at refused
        simp only [tableShape] at refused
        split at refused
        next => cases refused
        next =>
          cases refused
          rfl
  next =>
    cases refused
    rfl

theorem parseBody_err_iff (long : 5 ≤ body.length) :
    parseBody body headerSalt = .err error ↔
      error = .serialization ∧ ¬StartsWithTable body ∧ ¬CutAtRawIndex body := by
  constructor
  · intro refused
    refine ⟨parseBody_err long refused, ?_, ?_⟩
    · rintro ⟨table, extra, small, shape⟩
      have accepted := (parseBody_eq_ok_iff body headerSalt
        ⟨headerSalt, table.slots, table.verifier⟩ long).mpr
        ⟨extra, shape, rfl, small⟩
      rw [accepted] at refused
      cases refused
    · intro cut
      rw [(parseBody_eq_panic_iff body headerSalt long).mpr cut] at refused
      cases refused
  · rintro ⟨rfl, noTable, uncut⟩
    cases parsed : parseBody body headerSalt with
    | ok table =>
      obtain ⟨extra, shape, _, small⟩ := (parseBody_eq_ok_iff body headerSalt table long).mp parsed
      exact absurd ⟨table, extra, small, shape⟩ noTable
    | err error => rw [parseBody_err long parsed]
    | panic => exact absurd ((parseBody_eq_panic_iff body headerSalt long).mp parsed) uncut

/-- The byte strings that the parser refuses, with its errors. -/
inductive Refuses (crates : Crates) (data : List UInt8) (headerSalt : U8Array 32) :
    AegisError → Prop where
  | short (few : data.length < 5 + OUT_LEN) : Refuses crates data headerSalt .serialization
  | tampered (enough : 5 + OUT_LEN ≤ data.length) (invalid : ¬TrailerValid crates data headerSalt) :
      Refuses crates data headerSalt .headerIntegrity
  | malformed (valid : TrailerValid crates data headerSalt)
      (noTable : ¬StartsWithTable (data.take (data.length - OUT_LEN)))
      (uncut : ¬CutAtRawIndex (data.take (data.length - OUT_LEN))) :
      Refuses crates data headerSalt .serialization

theorem fromBytes_err_iff : fromBytes crates data headerSalt = .err error ↔
    Refuses crates data headerSalt error := by
  by_cases few : data.length < 5 + OUT_LEN
  · rw [fromBytes_eq, if_pos few]
    constructor
    · intro refused
      cases refused
      exact Refuses.short few
    · intro refused
      cases refused with
      | short _ => rfl
      | tampered enough _ => exact absurd few (Nat.not_lt.mpr enough)
      | malformed _ _ _ => rfl
  · have enough : 5 + OUT_LEN ≤ data.length := Nat.le_of_not_lt few
    by_cases valid : TrailerValid crates data headerSalt
    · rw [fromBytes_of_valid crates valid, parseBody_err_iff valid.body_long]
      constructor
      · rintro ⟨rfl, noTable, uncut⟩
        exact Refuses.malformed valid noTable uncut
      · intro refused
        cases refused with
        | short short => exact absurd short few
        | tampered _ invalid => exact absurd valid invalid
        | malformed _ noTable uncut => exact ⟨rfl, noTable, uncut⟩
    · have differs : (crates.blake3KeyedHash headerSalt (data.take (data.length - OUT_LEN))).val ≠
          data.drop (data.length - OUT_LEN) := fun same => valid ⟨enough, same⟩
      rw [fromBytes_eq, if_neg few, if_pos differs]
      constructor
      · intro refused
        cases refused
        exact Refuses.tampered enough valid
      · intro refused
        cases refused with
        | short short => exact absurd short few
        | tampered _ _ => rfl
        | malformed again _ _ => exact absurd again valid

end SoteriaAegis.Slots.KeySlotTable

namespace SoteriaAegis.Vault
open Rust Crypto Slots
variable {crates : Crates} {tableBytes passphrase : List UInt8} {headerSalt : U8Array 32}
  {error : AegisError}

/-- Why no vault is opened: the table cannot be read, no slot of it opens, or the first that does
holds a master that the verifier refuses. -/
inductive Refused (crates : Crates) (tableBytes : List UInt8) (headerSalt : U8Array 32)
    (passphrase : List UInt8) :
    AegisError → Prop where
  | unread {error : AegisError}
      (refuses : KeySlotTable.Refuses crates tableBytes headerSalt error) :
      Refused crates tableBytes headerSalt passphrase error
  | noSlot {table : KeySlotTable}
      (read : KeySlotTable.fromBytes crates tableBytes headerSalt = .ok table)
      (closed : ∀ slot ∈ table.slots, ∀ raw, ¬Yields crates passphrase slot raw) :
      Refused crates tableBytes headerSalt passphrase .noSlotUnsealed
  | foreign {table : KeySlotTable} {idx : Nat} {slot : KeySlot} {raw : U8Array MASTER_LEN}
      (read : KeySlotTable.fromBytes crates tableBytes headerSalt = .ok table)
      (found : table.slots[idx]? = some slot) (yields : Yields crates passphrase slot raw)
      (first : ∀ earlier < idx, ∀ other, table.slots[earlier]? = some other →
        ∀ raw, ¬Yields crates passphrase other raw)
      (mismatch : volumeVerifier crates raw ≠ table.verifier) :
      Refused crates tableBytes headerSalt passphrase .volumeMismatch

theorem unsealWith_err_iff {table : KeySlotTable} :
    table.unsealWith crates passphrase = .err error ↔
    error = .noSlotUnsealed ∧ ∀ slot ∈ table.slots, ∀ raw, ¬Yields crates passphrase slot raw := by
  constructor
  · intro failed
    refine ⟨KeySlotTable.unsealFrom_err crates failed, ?_⟩
    intro slot member raw yields
    obtain ⟨idx, _, unsealed⟩ := unsealWith_of_yields member yields
    rw [unsealed] at failed
    cases failed
  · rintro ⟨rfl, closed⟩
    cases searched : table.unsealWith crates passphrase with
    | ok answer =>
      obtain ⟨idx, master⟩ := answer
      obtain ⟨raw, rfl⟩ := AegisVault.unsealWith_raw searched
      obtain ⟨⟨slot, found, yields⟩, _⟩ := unsealWith_yields_iff.mp searched
      exact absurd yields (closed slot (List.mem_of_getElem? found) raw)
    | err error => rw [KeySlotTable.unsealFrom_err crates searched]
    | panic => exact absurd searched (KeySlotTable.unsealWith_ne_panic crates table passphrase)

theorem openFromSlots_err_iff (expands : crates.ExpandsShort) {vault : AegisVault} :
    (AegisVault.openFromSlots crates tableBytes headerSalt passphrase vault).1 = .err error ↔
      KeySlotTable.fromBytes crates tableBytes headerSalt = .err error ∨
      ∃ table, KeySlotTable.fromBytes crates tableBytes headerSalt = .ok table ∧
        (table.unsealWith crates passphrase = .err error ∨
          ∃ idx raw, table.unsealWith crates passphrase = .ok (idx, AegisKey.new32 raw) ∧
            volumeVerifier crates raw ≠ table.verifier ∧ error = .volumeMismatch) := by
  constructor
  · intro failed
    have done : AegisVault.openFromSlots crates tableBytes headerSalt passphrase vault =
      (.err error, _) :=
      Method.eq_of_fst _ failed
    rcases (Method.lift_bind_eq_err_iff _ _ _ _ _).mp done with ⟨refused, _⟩ | ⟨table, read, rest⟩
    · exact Or.inl refused
    refine Or.inr ⟨table, read, ?_⟩
    rcases (Method.lift_bind_eq_err_iff _ _ _ _ _).mp rest with ⟨unopened, _⟩ | ⟨⟨idx, master⟩,
      searched, rest⟩
    · exact Or.inl unopened
    obtain ⟨raw, rfl⟩ := AegisVault.unsealWith_raw searched
    refine Or.inr ⟨idx, raw, searched, ?_⟩
    simp only [AegisKey.expose_new32, U8Array.copyFromSlice_val, Method.bind_apply,
      Method.lift_apply] at rest
    by_cases checked : volumeVerifier crates raw = table.verifier
    · obtain ⟨hierarchy, derived⟩ := KeyHierarchy.fromMaster_total crates expands raw.val
      simp only [checked, ne_eq, not_true, if_false, Method.bind_apply, Method.lift_apply,
        Method.update_apply, derived] at rest
      cases congrArg Prod.fst rest
    · simp only [checked, ne_eq, not_false_eq_true, if_true] at rest
      cases congrArg Prod.fst rest
      exact ⟨checked, rfl⟩
  · rintro (refused | ⟨table, read, unopened | ⟨idx, raw, searched, mismatch, rfl⟩⟩)
    · simp only [AegisVault.openFromSlots, Method.bind_apply, Method.lift_apply, refused]
    · simp only [AegisVault.openFromSlots, Method.bind_apply, Method.lift_apply, read, unopened]
    · simp only [AegisVault.openFromSlots, Method.bind_apply, Method.lift_apply, read, searched,
        AegisKey.expose_new32, U8Array.copyFromSlice_val, ne_eq, mismatch,
          not_false_eq_true, if_true,
        Method.fail_apply]

/-- A table is refused exactly with the error that its bytes, its slots and the passphrase give,
whatever vault it is to be opened in. -/
theorem opening_refused_iff (expands : crates.ExpandsShort) (tableBytes : List UInt8)
    (headerSalt : U8Array 32) (passphrase : List UInt8) (vault : AegisVault) (error : AegisError) :
    (AegisVault.openFromSlots crates tableBytes headerSalt passphrase vault).1 = .err error ↔
      Refused crates tableBytes headerSalt passphrase error := by
  rw [openFromSlots_err_iff expands]
  constructor
  · rintro (refused | ⟨table, read, unopened | ⟨idx, raw, searched, mismatch, rfl⟩⟩)
    · exact Refused.unread (KeySlotTable.fromBytes_err_iff.mp refused)
    · obtain ⟨rfl, closed⟩ := unsealWith_err_iff.mp unopened
      exact Refused.noSlot read closed
    · obtain ⟨⟨slot, found, yields⟩, first⟩ := unsealWith_yields_iff.mp searched
      exact Refused.foreign read found yields first mismatch
  · intro refused
    cases refused with
    | unread refuses => exact Or.inl (KeySlotTable.fromBytes_err_iff.mpr refuses)
    | noSlot read closed => exact Or.inr ⟨_, read, Or.inl (unsealWith_err_iff.mpr ⟨rfl, closed⟩)⟩
    | foreign read found yields first mismatch =>
      exact Or.inr ⟨_, read, Or.inr ⟨_, _, unsealWith_yields_iff.mpr ⟨⟨_, found, yields⟩, first⟩,
        mismatch, rfl⟩⟩

end SoteriaAegis.Vault
