import SoteriaAegis.Vault.Coherence
import SoteriaAegis.Vault.OneMaster

/-! Single calls on a vault, whatever state it is in: a call that fails leaves no trace, and
opening succeeds when a slot holds the right master, unless another slot hides it. -/

namespace SoteriaAegis.Vault
open Rust Crypto Slots

variable (crates : Crates)

/-- A failed call gives the vault back as it was. A revocation changes one slot at most, an
addition to a table appends one. -/
theorem failed_no_trace (expands : crates.ExpandsShort) (vault next : AegisVault) :
    (∀ passphrase draws error,
      AegisVault.sealSlots crates passphrase draws vault = (.err error, next) → next = vault) ∧
    (∀ passphrase draws error,
      AegisVault.addSlot crates passphrase draws vault = (.err error, next) → next = vault) ∧
    (∀ idx error, AegisVault.revokeSlot idx vault = (.err error, next) → next = vault) ∧
    (∀ tableBytes headerSalt passphrase error,
      AegisVault.openFromSlots crates tableBytes headerSalt passphrase vault = (.err error, next) → next = vault) ∧
    (∀ idx, AegisVault.revokeSlot idx vault = (.ok (), next) → ∃ table slot, vault.slots = some table ∧
      table.slots[idx]? = some slot ∧ (next = vault ∨ next = { vault with
        slots := some { table with slots := table.slots.set idx { slot with
          flags := slot.flags &&& 0b11111110, ct := U8Array.zeros CT_LEN } } })) ∧
    ∀ passphrase draws idx table, vault.slots = some table →
      AegisVault.addSlot crates passphrase draws vault = (.ok idx, next) → idx = table.slots.length ∧
        ∃ slot, next = { vault with slots := some { table with slots := table.slots ++ [slot] } } := by
  refine ⟨fun _ _ _ => AegisVault.sealSlots_err, fun _ _ _ => AegisVault.addSlot_err,
    fun _ _ => AegisVault.revokeSlot_err, ?_, ?_, ?_⟩
  · intro tableBytes headerSalt passphrase error failed
    rcases AegisVault.openFromSlots_err failed with same | ⟨_, raw, _, refused, _⟩
    · exact same
    · obtain ⟨hierarchy, derived⟩ := KeyHierarchy.fromMaster_total crates expands raw.val
      rw [derived] at refused
      cases refused
  · intro idx done
    obtain ⟨table, slot, held, found, ⟨_, same⟩ | ⟨_, _, wiped⟩⟩ := AegisVault.revokeSlot_ok done
    · exact ⟨table, slot, held, found, Or.inl same⟩
    · refine ⟨table, slot, held, found, Or.inr ?_⟩
      rw [wiped, List.modify_eq_set_getElem?, found]
      rfl
  · intro passphrase draws idx table held done
    obtain ⟨raw, _, added⟩ := AegisVault.addSlot_ok done
    rcases added with ⟨found, slot, same, _, count, _, grown⟩ | ⟨_, empty, _⟩
    · rw [held] at same
      cases same
      exact ⟨count, slot, grown⟩
    · rw [held] at empty
      cases empty

def mixed : Option KeySlotTable :=
  (KeySlotTable.newInitial checksumCrates (U8Array.zeros 32) (ascii "bob") TableDraws.blank).toOption.bind fun start =>
    run (TableCall.step checksumCrates) start [.addSlot otherMaster (ascii "alice") SlotDraws.blank,
      .addSlot (U8Array.zeros 32) (ascii "carol") SlotDraws.blank]

/-- A sealed vault refuses to lose its last slot, and a table with a foreign slot as that slot's
owner opens it. -/
theorem failed_no_trace_sealed : ∃ start vault table,
    AegisVault.fromMasterKey checksumCrates otherMaster = .ok start ∧
    run (VaultOp.step checksumCrates) start [.call (.sealSlots (ascii "alice") TableDraws.blank),
      .call (.addSlot (ascii "bob") TableDraws.blank), .call (.revokeSlot 0)] = some vault ∧
    mixed = some table ∧
    AegisVault.revokeSlot 1 vault = (.err .lastSlotRevocation, vault) ∧
    AegisVault.openFromSlots checksumCrates (table.toBytes checksumCrates) table.headerSalt (ascii "eve") vault =
      (.err .noSlotUnsealed, vault) ∧
    AegisVault.openFromSlots checksumCrates (table.toBytes checksumCrates) table.headerSalt (ascii "alice") vault =
      (.err .volumeMismatch, vault) := by
  have reached : (AegisVault.fromMasterKey checksumCrates otherMaster).toOption.any (fun start =>
      (run (VaultOp.step checksumCrates) start [.call (.sealSlots (ascii "alice") TableDraws.blank),
        .call (.addSlot (ascii "bob") TableDraws.blank), .call (.revokeSlot 0)]).any fun vault =>
      mixed.any fun table =>
        (AegisVault.revokeSlot 1 vault).1 = .err .lastSlotRevocation ∧
        (AegisVault.openFromSlots checksumCrates (table.toBytes checksumCrates) table.headerSalt
          (ascii "eve") vault).1 = .err .noSlotUnsealed ∧
        (AegisVault.openFromSlots checksumCrates (table.toBytes checksumCrates) table.headerSalt
          (ascii "alice") vault).1 = .err .volumeMismatch) = true := by
    decide +kernel
  obtain ⟨start, made, reached⟩ := Outcome.ok_of_any reached
  obtain ⟨vault, ran, reached⟩ := (Option.any_eq_true _ _).mp reached
  obtain ⟨table, tabled, reached⟩ := (Option.any_eq_true _ _).mp reached
  obtain ⟨last, wrong, foreign⟩ := of_decide_eq_true reached
  have untraced := failed_no_trace checksumCrates checksumCrates_expandsShort vault
  have revokes := Method.eq_of_fst _ last
  have refuses := Method.eq_of_fst _ wrong
  have mismatches := Method.eq_of_fst _ foreign
  refine ⟨start, vault, table, made, ran, tabled, Prod.ext last ?_, Prod.ext wrong ?_, Prod.ext foreign ?_⟩
  · exact (untraced _).2.2.1 _ _ revokes
  · exact (untraced _).2.2.2.1 _ _ _ _ refuses
  · exact (untraced _).2.2.2.1 _ _ _ _ mismatches

/-- A vault without a table, from before the hierarchy. -/
def bare : AegisVault := ⟨AegisKey.new32 (U8Array.zeros 32), KeyHierarchy.legacySingleKey (U8Array.zeros 32), none⟩

def Yields (passphrase : List UInt8) (slot : KeySlot) (raw : U8Array MASTER_LEN) : Prop :=
  slot.isEnabled = true ∧ slot.unsealSlot crates passphrase = .ok (AegisKey.new32 raw)

def Right (table : KeySlotTable) (passphrase : List UInt8) (slot : KeySlot) (raw : U8Array MASTER_LEN) : Prop :=
  Yields crates passphrase slot raw ∧ volumeVerifier crates raw = table.verifier

/-- The first slot that opens holds a foreign master, and a right one comes behind it. -/
def Hidden (table : KeySlotTable) (passphrase : List UInt8) : Prop :=
  ∃ (first later : Nat) (foreign right : U8Array MASTER_LEN), first < later ∧
    (∃ slot, table.slots[first]? = some slot ∧ Yields crates passphrase slot foreign) ∧
    (∀ earlier < first, ∀ slot, table.slots[earlier]? = some slot → ∀ raw, ¬Yields crates passphrase slot raw) ∧
    volumeVerifier crates foreign ≠ table.verifier ∧
    ∃ slot, table.slots[later]? = some slot ∧ Right crates table passphrase slot right

def Complete (table : KeySlotTable) (tableBytes : List UInt8) (headerSalt : U8Array 32) (passphrase : List UInt8)
    (vault : AegisVault) : Prop :=
  ((AegisVault.openFromSlots crates tableBytes headerSalt passphrase vault).1 = .ok () ↔
    ∃ slot ∈ table.slots, ∃ raw, Right crates table passphrase slot raw) ∧
  ∀ next, AegisVault.openFromSlots crates tableBytes headerSalt passphrase vault = (.ok (), next) →
    ∃ slot ∈ table.slots, ∃ raw, Right crates table passphrase slot raw ∧ next.master = AegisKey.new32 raw

variable {crates} {table : KeySlotTable} {passphrase : List UInt8}

theorem unsealWith_yields_iff {idx : Nat} {raw : U8Array MASTER_LEN} :
    table.unsealWith crates passphrase = .ok (idx, AegisKey.new32 raw) ↔
      (∃ slot, table.slots[idx]? = some slot ∧ Yields crates passphrase slot raw) ∧
      ∀ earlier < idx, ∀ slot, table.slots[earlier]? = some slot → ∀ other, ¬Yields crates passphrase slot other := by
  rw [KeySlotTable.unsealWith_eq_ok_iff]
  constructor
  · intro ⟨slot, found, enabled, opened, first⟩
    refine ⟨⟨slot, found, enabled, opened⟩, ?_⟩
    intro earlier before other at_earlier answer ⟨otherEnabled, otherOpened⟩
    exact first earlier before other at_earlier otherEnabled _ otherOpened
  · intro ⟨⟨slot, found, enabled, opened⟩, first⟩
    refine ⟨slot, found, enabled, opened, ?_⟩
    intro earlier before other at_earlier otherEnabled answer otherOpened
    obtain ⟨_, raw, _, _, rfl⟩ := (KeySlot.unsealSlot_eq_ok_iff crates _ _ _).mp otherOpened
    exact first earlier before other at_earlier raw ⟨otherEnabled, otherOpened⟩

section
variable {tableBytes : List UInt8} {headerSalt : U8Array 32}
  (read : KeySlotTable.fromBytes crates tableBytes headerSalt = .ok table)
include read

theorem openFromSlots_isOk_iff (expands : crates.ExpandsShort) (vault : AegisVault) :
    (AegisVault.openFromSlots crates tableBytes headerSalt passphrase vault).1 = .ok () ↔
      ∃ idx raw, table.unsealWith crates passphrase = .ok (idx, AegisKey.new32 raw) ∧
        volumeVerifier crates raw = table.verifier := by
  constructor
  · intro opened
    have done : AegisVault.openFromSlots crates tableBytes headerSalt passphrase vault = (.ok (), _) :=
      Method.eq_of_fst _ opened
    obtain ⟨found, raw, _, recovered, _, _⟩ := AegisVault.openFromSlots_eq_ok_iff.mp done
    have again := recovered.read
    rw [read] at again
    cases again
    obtain ⟨idx, unsealed⟩ := recovered.opened
    exact ⟨idx, raw, unsealed, recovered.checked⟩
  · intro ⟨idx, raw, unsealed, checked⟩
    obtain ⟨hierarchy, derived⟩ := KeyHierarchy.fromMaster_total crates expands raw.val
    have done : AegisVault.openFromSlots crates tableBytes headerSalt passphrase vault =
        (.ok (), ⟨AegisKey.new32 raw, hierarchy, some table⟩) :=
      AegisVault.openFromSlots_eq_ok_iff.mpr
        ⟨table, raw, hierarchy, ⟨read, ⟨idx, unsealed⟩, checked⟩, derived, rfl⟩
    rw [done]

theorem openFromSlots_master {vault next : AegisVault}
    (done : AegisVault.openFromSlots crates tableBytes headerSalt passphrase vault = (.ok (), next)) :
    ∃ slot ∈ table.slots, ∃ raw, Right crates table passphrase slot raw ∧ next.master = AegisKey.new32 raw := by
  obtain ⟨found, raw, hierarchy, recovered, _, rfl⟩ := AegisVault.openFromSlots_eq_ok_iff.mp done
  have again := recovered.read
  rw [read] at again
  cases again
  obtain ⟨idx, unsealed⟩ := recovered.opened
  obtain ⟨⟨slot, at_idx, yields⟩, _⟩ := unsealWith_yields_iff.mp unsealed
  exact ⟨slot, List.mem_of_getElem? at_idx, raw, ⟨yields, recovered.checked⟩, rfl⟩

end

theorem unsealWith_of_yields {slot : KeySlot} (member : slot ∈ table.slots) {raw : U8Array MASTER_LEN}
    (yields : Yields crates passphrase slot raw) :
    ∃ idx first, table.unsealWith crates passphrase = .ok (idx, AegisKey.new32 first) := by
  obtain ⟨⟨idx, found⟩, opened⟩ :=
    (KeySlotTable.unsealWith_isOk_iff crates table passphrase).mpr ⟨slot, member, yields.1, _, yields.2⟩
  obtain ⟨first, rfl⟩ := AegisVault.unsealWith_raw opened
  exact ⟨idx, first, opened⟩

/-- Opening by passphrase is complete on the tables in which no slot hides a right one. -/
theorem opening_complete_iff (expands : crates.ExpandsShort) (table : KeySlotTable) (tableBytes : List UInt8)
    (headerSalt : U8Array 32) (read : KeySlotTable.fromBytes crates tableBytes headerSalt = .ok table)
    (passphrase : List UInt8) (vault : AegisVault) :
    Complete crates table tableBytes headerSalt passphrase vault ↔ ¬Hidden crates table passphrase := by
  have opens : (AegisVault.openFromSlots crates tableBytes headerSalt passphrase vault).1 = .ok () ↔ _ :=
    openFromSlots_isOk_iff read expands vault
  constructor
  · intro ⟨complete, _⟩ ⟨first, later, foreign, right, _, first_yields, before, refused, slot, found, holds⟩
    have opened := complete.mpr ⟨slot, List.mem_of_getElem? found, right, holds⟩
    obtain ⟨idx, raw, unsealed, checked⟩ := opens.mp opened
    have stops := unsealWith_yields_iff.mpr ⟨first_yields, before⟩
    rw [unsealed, Outcome.ok.injEq, Prod.mk.injEq] at stops
    rw [AegisKey.new32_injective stops.2] at checked
    exact refused checked
  · intro clear
    refine ⟨⟨?_, ?_⟩, fun next done => openFromSlots_master read done⟩
    · intro opened
      obtain ⟨idx, raw, unsealed, checked⟩ := opens.mp opened
      obtain ⟨⟨slot, found, yields⟩, _⟩ := unsealWith_yields_iff.mp unsealed
      exact ⟨slot, List.mem_of_getElem? found, raw, yields, checked⟩
    · intro ⟨slot, member, right, yields, checked⟩
      obtain ⟨idx, first, unsealed⟩ := unsealWith_of_yields member yields
      refine opens.mpr ⟨idx, first, unsealed, ?_⟩
      obtain ⟨⟨other, at_idx, otherYields⟩, before⟩ := unsealWith_yields_iff.mp unsealed
      obtain ⟨later, at_later⟩ := List.getElem?_of_mem member
      by_contra refused
      rcases Nat.lt_trichotomy later idx with earlier | same | behind
      · exact before later earlier slot at_later right yields
      · subst same
        rw [at_idx] at at_later
        cases at_later
        have answers := otherYields.2.symm.trans yields.2
        rw [Outcome.ok.injEq] at answers
        rw [AegisKey.new32_injective answers] at refused
        exact refused checked
      · exact clear ⟨idx, later, first, right, behind, ⟨other, at_idx, otherYields⟩, before, refused,
          slot, at_later, yields, checked⟩

/-- Alice's slot holds a foreign master. It hides nothing from carol, whose slot comes behind it. -/
theorem opening_complete_mixed : ∃ table, mixed = some table ∧
    Complete checksumCrates table (table.toBytes checksumCrates) table.headerSalt (ascii "carol") bare ∧
    (AegisVault.openFromSlots checksumCrates (table.toBytes checksumCrates) table.headerSalt (ascii "carol") bare).1 =
      .ok () := by
  have reached : mixed.any (fun table =>
      KeySlotTable.fromBytes checksumCrates (table.toBytes checksumCrates) table.headerSalt = .ok table ∧
      table.unsealWith checksumCrates (ascii "carol") = .ok (2, AegisKey.new32 (U8Array.zeros 32)) ∧
      volumeVerifier checksumCrates (U8Array.zeros 32) = table.verifier) = true := by
    decide +kernel
  obtain ⟨table, tabled, reached⟩ := (Option.any_eq_true _ _).mp reached
  obtain ⟨read, unsealed, accepted⟩ := of_decide_eq_true reached
  have clear : ¬Hidden checksumCrates table (ascii "carol") := by
    intro ⟨first, later, foreign, _, _, yields, before, refused, _⟩
    have stops := unsealWith_yields_iff.mpr ⟨yields, before⟩
    rw [unsealed, Outcome.ok.injEq, Prod.mk.injEq] at stops
    exact refused (AegisKey.new32_injective stops.2 ▸ accepted)
  have complete := (opening_complete_iff checksumCrates_expandsShort table _ _ read _ bare).mpr clear
  obtain ⟨⟨slot, found, yields⟩, _⟩ := unsealWith_yields_iff.mp unsealed
  exact ⟨table, tabled, complete,
    complete.1.mpr ⟨slot, List.mem_of_getElem? found, _, yields, accepted⟩⟩

/-- The passphrase of a slot with the right master is taken first by a slot with another one. -/
theorem right_slot_hidden : ∃ start table,
    KeySlotTable.newInitial checksumCrates (U8Array.zeros 32) (ascii "bob") TableDraws.blank = .ok start ∧
    run (TableCall.step checksumCrates) start [.addSlot otherMaster (ascii "alice") SlotDraws.blank,
      .addSlot (U8Array.zeros 32) (ascii "alice") SlotDraws.blank] = some table ∧
    KeySlotTable.fromBytes checksumCrates (table.toBytes checksumCrates) table.headerSalt = .ok table ∧
    (AegisVault.openFromSlots checksumCrates (table.toBytes checksumCrates) table.headerSalt (ascii "alice") bare).1 =
      .err .volumeMismatch ∧
    ¬Complete checksumCrates table (table.toBytes checksumCrates) table.headerSalt (ascii "alice") bare := by
  have reached : (KeySlotTable.newInitial checksumCrates (U8Array.zeros 32) (ascii "bob")
      TableDraws.blank).toOption.any (fun start => (run (TableCall.step checksumCrates) start
        [.addSlot otherMaster (ascii "alice") SlotDraws.blank,
          .addSlot (U8Array.zeros 32) (ascii "alice") SlotDraws.blank]).any fun table =>
        KeySlotTable.fromBytes checksumCrates (table.toBytes checksumCrates) table.headerSalt = .ok table ∧
        (AegisVault.openFromSlots checksumCrates (table.toBytes checksumCrates) table.headerSalt (ascii "alice")
          bare).1 = .err .volumeMismatch ∧
        ∃ slot ∈ table.slots, slot.isEnabled = true ∧
          slot.unsealSlot checksumCrates (ascii "alice") = .ok (AegisKey.new32 (U8Array.zeros 32)) ∧
          volumeVerifier checksumCrates (U8Array.zeros 32) = table.verifier) = true := by
    decide +kernel
  obtain ⟨start, initial, passed⟩ := Outcome.ok_of_any reached
  obtain ⟨table, ran, checked⟩ := (Option.any_eq_true _ _).mp passed
  obtain ⟨read, refused, slot, member, enabled, opened, accepted⟩ := of_decide_eq_true checked
  refine ⟨start, table, initial, ran, read, refused, ?_⟩
  intro ⟨complete, _⟩
  have succeeds := complete.mpr ⟨slot, member, U8Array.zeros 32, ⟨enabled, opened⟩, accepted⟩
  rw [refused] at succeeds
  cases succeeds

end SoteriaAegis.Vault
