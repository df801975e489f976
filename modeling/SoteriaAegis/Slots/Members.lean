import SoteriaAegis.Slots.Runs
import SoteriaAegis.Access.Roster

/-! Tables whose slots all wrap one master, with the passphrase each slot was made with. The
passphrases and the enabled flags together are the roster of those who get the master. -/

namespace SoteriaAegis.Slots
open Rust Crypto Access

/-- Passphrases in use derive different keys with the slot's salt and costs. -/
def KeysDiffer (crates : Crates) (used : List (List UInt8)) (slot : KeySlot) : Prop :=
  ∀ owner ∈ used, ∀ other ∈ used, ∀ key, DerivesKey crates slot owner key →
    DerivesKey crates slot other key → owner = other

/-- AES-GCM does not open what one passphrase in use sealed with the different key of another. -/
def RejectsOtherKeys (crates : Crates) (used : List (List UInt8)) (slot : KeySlot) : Prop :=
  ∀ owner ∈ used, ∀ other ∈ used, ∀ sealing key, DerivesKey crates slot owner sealing →
    DerivesKey crates slot other key → key ≠ sealing →
    ∀ master : U8Array MASTER_LEN,
      crates.aes256GcmEncrypt sealing slot.nonce master.val HEADER_MAGIC = some slot.ct.val →
      crates.aes256GcmDecrypt key slot.nonce slot.ct.val HEADER_MAGIC = none

def KeySlot.openedBy (crates : Crates) (slot : KeySlot) (passphrase : List UInt8) : Option (List UInt8) :=
  (argon2idRoot crates passphrase slot.salt.val slot.mCost slot.tCost).toOption.bind fun slotKey =>
    (U8Array.tryFrom 32 slotKey.expose).bind fun key =>
      crates.aes256GcmDecrypt key slot.nonce slot.ct.val HEADER_MAGIC

def KeySlot.apart (crates : Crates) (used : List (List UInt8)) (slot : KeySlot) : Bool :=
  used.all fun owner => used.all fun other => owner == other ||
    (argon2idRoot crates owner slot.salt.val slot.mCost slot.tCost !=
        argon2idRoot crates other slot.salt.val slot.mCost slot.tCost &&
      ((slot.openedBy crates owner).isNone || (slot.openedBy crates other).isNone))

theorem KeySlot.openedBy_of_derives {crates : Crates} {slot : KeySlot} {passphrase : List UInt8} {key : U8Array 32}
    (derives : DerivesKey crates slot passphrase key) :
    slot.openedBy crates passphrase = crates.aes256GcmDecrypt key slot.nonce slot.ct.val HEADER_MAGIC := by
  rw [openedBy, derives]
  simp only [Outcome.toOption, Option.bind_some, AegisKey.expose_new32, U8Array.tryFrom_val]

theorem KeySlot.apart_iff_pairs (crates : Crates) (used : List (List UInt8)) (slot : KeySlot) :
    slot.apart crates used = true ↔ ∀ owner ∈ used, ∀ other ∈ used, owner = other ∨
      argon2idRoot crates owner slot.salt.val slot.mCost slot.tCost ≠
          argon2idRoot crates other slot.salt.val slot.mCost slot.tCost ∧
        (slot.openedBy crates owner = none ∨ slot.openedBy crates other = none) := by
  simp only [apart, List.all_eq_true, Bool.or_eq_true, Bool.and_eq_true, beq_iff_eq, bne_iff_ne,
    Option.isNone_iff_eq_none]

theorem KeySlot.apart_spec {crates : Crates} (opens : crates.OpensSealed) {used : List (List UInt8)} {slot : KeySlot}
    (passed : slot.apart crates used = true) :
    KeysDiffer crates used slot ∧ RejectsOtherKeys crates used slot := by
  have pairs := (apart_iff_pairs crates used slot).mp passed
  constructor
  · intro owner ownerUsed other otherUsed key derived otherDerived
    rcases pairs owner ownerUsed other otherUsed with same | ⟨different, _⟩
    · exact same
    · exact absurd (derived.trans otherDerived.symm) different
  · intro owner ownerUsed other otherUsed sealing key derived otherDerived distinct master encrypted
    rcases pairs owner ownerUsed other otherUsed with same | ⟨_, closed⟩
    · subst same
      have one := derived.symm.trans otherDerived
      rw [Outcome.ok.injEq] at one
      exact absurd (AegisKey.new32_injective one).symm distinct
    · rw [openedBy_of_derives derived, openedBy_of_derives otherDerived,
        opens.aes sealing slot.nonce master.val HEADER_MAGIC slot.ct.val encrypted] at closed
      rcases closed with impossible | refused
      · cases impossible
      · exact refused

section
variable {crates : Crates} {used : List (List UInt8)} {slot : KeySlot} {owner other : List UInt8}
  {master : U8Array MASTER_LEN}

/-- Whoever opens a slot derives the key it was sealed with, and gets the master it wraps. -/
theorem Wraps.opened_same_key (wraps : Wraps crates slot owner master) (opens : crates.OpensSealed)
    (rejects : RejectsOtherKeys crates used slot) (ownerUsed : owner ∈ used) (otherUsed : other ∈ used) {found : AegisKey}
    (opened : slot.unsealSlot crates other = .ok found) :
    found = AegisKey.new32 master ∧ ∃ key, DerivesKey crates slot owner key ∧ DerivesKey crates slot other key := by
  obtain ⟨sealing, derived, encrypted⟩ := wraps
  obtain ⟨key, arr, otherDerived, decrypted, rfl⟩ := (KeySlot.unsealSlot_eq_ok_iff crates _ _ _).mp opened
  by_cases same : key = sealing
  · subst same
    have back := opens.aes key slot.nonce master.val HEADER_MAGIC slot.ct.val encrypted
    rw [decrypted, Option.some.injEq] at back
    rw [Subtype.ext back]
    exact ⟨rfl, key, derived, otherDerived⟩
  · have refused := rejects owner ownerUsed other otherUsed sealing key derived otherDerived same master encrypted
    rw [refused] at decrypted
    cases decrypted

theorem Wraps.unsealSlot_iff (wraps : Wraps crates slot owner master) (opens : crates.OpensSealed)
    (differ : KeysDiffer crates used slot) (rejects : RejectsOtherKeys crates used slot)
    (ownerUsed : owner ∈ used) (otherUsed : other ∈ used) (found : AegisKey) :
    slot.unsealSlot crates other = .ok found ↔ owner = other ∧ found = AegisKey.new32 master := by
  constructor
  · intro opened
    obtain ⟨same, key, derived, otherDerived⟩ := wraps.opened_same_key opens rejects ownerUsed otherUsed opened
    exact ⟨differ owner ownerUsed other otherUsed key derived otherDerived, same⟩
  · intro member
    rw [← member.1, member.2]
    exact KeySlot.unsealSlot_of_wraps crates opens wraps

end

namespace KeySlotTable

/-- Each slot is a seat of the passphrase it was made with, active while it is enabled. -/
def roster (owners : List (List UInt8)) (table : KeySlotTable) : Roster (List UInt8) :=
  owners.zip (table.slots.map KeySlot.isEnabled)

theorem roster_holds_iff (owners : List (List UInt8)) (table : KeySlotTable) (passphrase : List UInt8) (seat : Nat) :
    (table.roster owners).Holds passphrase seat ↔
      ∃ slot, table.slots[seat]? = some slot ∧ slot.isEnabled = true ∧ owners[seat]? = some passphrase := by
  unfold Roster.Holds roster
  rw [List.getElem?_zip_eq_some, List.getElem?_map, Option.map_eq_some_iff]
  constructor
  · intro held
    obtain ⟨slot, found, enabled⟩ := held.2
    exact ⟨slot, found, enabled, held.1⟩
  · intro ⟨slot, found, enabled, owned⟩
    exact ⟨owned, slot, found, enabled⟩

theorem roster_active {owners : List (List UInt8)} {table : KeySlotTable}
    (count : owners.length = table.slots.length) : (table.roster owners).active = table.enabledCount := by
  have flags : (table.roster owners).map Prod.snd = table.slots.map KeySlot.isEnabled := by
    apply List.map_snd_zip
    rw [List.length_map, count]
  have entries := congrArg (fun values => (values.filter id).length) flags
  simp only [List.filter_map, List.length_map] at entries
  exact entries

theorem roster_append {owners : List (List UInt8)} {table : KeySlotTable} (count : owners.length = table.slots.length)
    (passphrase : List UInt8) {slot : KeySlot} (enabled : slot.isEnabled = true) :
    roster (owners ++ [passphrase]) { table with slots := table.slots ++ [slot] } =
      (table.roster owners).enroll passphrase := by
  unfold roster Roster.enroll
  rw [List.map_append, List.zip_append (by rw [List.length_map, count]), List.map_singleton, enabled]
  rfl

theorem roster_revoke (owners : List (List UInt8)) (table : KeySlotTable) (idx : Nat) :
    roster owners { table with slots := table.slots.modify idx KeySlot.revoked } =
      (table.roster owners).revoke idx := by
  unfold roster Roster.revoke
  apply List.ext_getElem?
  intro seat
  rw [List.getElem?_modify]
  simp only [List.zip_eq_zipWith, List.getElem?_zipWith, List.getElem?_map, List.getElem?_modify]
  by_cases named : idx = seat
  · cases owners[seat]? with
    | none => simp
    | some owner =>
      cases table.slots[seat]? with
      | none => simp
      | some slot => simp [named, KeySlot.revoked_disabled]
  · cases owners[seat]? with
    | none => simp
    | some owner =>
      cases table.slots[seat]? with
      | none => simp
      | some slot => simp [named]

theorem append_manned {table : KeySlotTable} (manned : 0 < table.enabledCount) (slot : KeySlot) :
    0 < enabledCount { table with slots := table.slots ++ [slot] } := by
  obtain ⟨old, member, enabled⟩ := (enabledCount_pos_iff _).mp manned
  exact (enabledCount_pos_iff _).mpr ⟨old, List.mem_append_left _ member, enabled⟩

theorem revoke_manned {table : KeySlotTable} (several : 1 < table.enabledCount) (idx : Nat) :
    0 < enabledCount { table with slots := table.slots.modify idx KeySlot.revoked } := by
  have cost := length_filter_modify KeySlot.isEnabled KeySlot.revoked table.slots idx
  unfold enabledCount at several ⊢
  exact Nat.lt_of_succ_lt_succ (Nat.lt_of_lt_of_le several cost)

theorem newInitial_manned {crates : Crates} {master : U8Array MASTER_LEN} {passphrase : List UInt8}
    {draws : TableDraws} {table : KeySlotTable} (made : newInitial crates master passphrase draws = .ok table) :
    0 < table.enabledCount := by
  obtain ⟨slot, created, rfl⟩ := (newInitial_eq_ok_iff crates _ _ _ _).mp made
  apply (enabledCount_pos_iff _).mpr
  exact ⟨slot, List.mem_singleton_self slot, KeySlot.create_enabled crates created⟩

/-- The table is `master`'s, and its enabled slots wrap `master` for their owners. -/
structure Owned (crates : Crates) (master : U8Array MASTER_LEN) (owners : List (List UInt8))
    (table : KeySlotTable) : Prop where
  count : owners.length = table.slots.length
  few : table.slots.length ≤ MAX_SLOTS
  verifier : table.verifier = volumeVerifier crates master
  wraps : ∀ (seat : Nat) (slot : KeySlot) (owner : List UInt8), table.slots[seat]? = some slot →
    slot.isEnabled = true → owners[seat]? = some owner → Wraps crates slot owner master

namespace Owned
variable {crates : Crates} {master : U8Array MASTER_LEN} {owners : List (List UInt8)} {table : KeySlotTable}

theorem small (owned : Owned crates master owners table) : table.slots.length < 256 :=
  countable owned.few

theorem of_newInitial {passphrase : List UInt8} {draws : TableDraws}
    (made : newInitial crates master passphrase draws = .ok table) : Owned crates master [passphrase] table := by
  obtain ⟨slot, created, rfl⟩ := (newInitial_eq_ok_iff crates _ _ _ _).mp made
  obtain ⟨wraps, _⟩ := (KeySlot.create_eq_ok_iff crates _ _ _ _ _ _).mp created
  refine ⟨rfl, show 1 ≤ MAX_SLOTS by decide, rfl, ?_⟩
  intro seat other owner found _ owned
  cases seat with
  | zero =>
    cases found
    cases owned
    exact wraps
  | succ seat => cases found

theorem append (owned : Owned crates master owners table) (room : table.slots.length < MAX_SLOTS)
    {passphrase : List UInt8} {mCost tCost : UInt32} {draws : SlotDraws} {slot : KeySlot}
    (created : KeySlot.create crates master passphrase mCost tCost draws = .ok slot) :
    Owned crates master (owners ++ [passphrase]) { table with slots := table.slots ++ [slot] } := by
  obtain ⟨wraps, _⟩ := (KeySlot.create_eq_ok_iff crates _ _ _ _ _ _).mp created
  refine ⟨?_, ?_, owned.verifier, ?_⟩
  · rw [List.length_append, List.length_append, owned.count]
    rfl
  · rw [List.length_append]
    exact room
  · intro seat other owner found enabled held
    by_cases old : seat < table.slots.length
    · rw [List.getElem?_append_left old] at found
      rw [List.getElem?_append_left (owned.count ▸ old)] at held
      exact owned.wraps seat other owner found enabled held
    · have late := Nat.le_of_not_lt old
      rw [List.getElem?_append_right late, List.getElem?_singleton] at found
      rw [List.getElem?_append_right (owned.count ▸ late), List.getElem?_singleton] at held
      have sameSlot := (Option.ite_none_right_eq_some.mp found).2
      have sameOwner := (Option.ite_none_right_eq_some.mp held).2
      cases sameSlot
      cases sameOwner
      exact wraps

theorem modify_revoked (owned : Owned crates master owners table) (idx : Nat) :
    Owned crates master owners { table with slots := table.slots.modify idx KeySlot.revoked } := by
  refine ⟨?_, ?_, owned.verifier, ?_⟩
  · rw [List.length_modify, owned.count]
  · rw [List.length_modify]
    exact owned.few
  · intro seat other owner found enabled held
    rw [List.getElem?_modify] at found
    obtain ⟨before, old, same⟩ := Option.map_eq_some_iff.mp found
    by_cases named : idx = seat
    · simp only [named, if_true] at same
      rw [← same, KeySlot.revoked_disabled] at enabled
      cases enabled
    · simp only [named, if_false] at same
      subst same
      exact owned.wraps seat before owner old enabled held

theorem owner_of_slot (owned : Owned crates master owners table) {seat : Nat} {slot : KeySlot}
    (found : table.slots[seat]? = some slot) : ∃ owner ∈ owners, owners[seat]? = some owner := by
  have inside : seat < owners.length := owned.count ▸ (List.getElem?_eq_some_iff.mp found).1
  exact ⟨owners[seat], List.getElem_mem inside, List.getElem?_eq_getElem inside⟩

section
variable {used : List (List UInt8)} (owned : Owned crates master owners table) (opens : crates.OpensSealed)
  (inUse : owners ⊆ used) {passphrase : List UInt8} (passphraseUsed : passphrase ∈ used)
include owned opens inUse passphraseUsed

theorem unsealWith_master (rejects : ∀ slot ∈ table.slots, RejectsOtherKeys crates used slot) {idx : Nat}
    {found : AegisKey} (opened : table.unsealWith crates passphrase = .ok (idx, found)) :
    found = AegisKey.new32 master := by
  obtain ⟨slot, at_idx, enabled, unsealed, _⟩ := (unsealWith_eq_ok_iff crates _ _ _ _).mp opened
  obtain ⟨owner, member, held⟩ := owned.owner_of_slot at_idx
  exact ((owned.wraps idx slot owner at_idx enabled held).opened_same_key opens
    (rejects slot (List.mem_of_getElem? at_idx)) (inUse member) passphraseUsed unsealed).1

/-- The search finds the first seat of a passphrase in use, and the master. -/
theorem unsealWith_iff (differ : ∀ slot ∈ table.slots, KeysDiffer crates used slot)
    (rejects : ∀ slot ∈ table.slots, RejectsOtherKeys crates used slot) (idx : Nat) (found : AegisKey) :
    table.unsealWith crates passphrase = .ok (idx, found) ↔
      (table.roster owners).First passphrase idx ∧ found = AegisKey.new32 master := by
  have opensFor : ∀ seat slot, table.slots[seat]? = some slot → slot.isEnabled = true → ∀ answer,
      slot.unsealSlot crates passphrase = .ok answer ↔
        (table.roster owners).Holds passphrase seat ∧ answer = AegisKey.new32 master := by
    intro seat slot at_seat enabled answer
    obtain ⟨owner, ownerMember, held⟩ := owned.owner_of_slot at_seat
    have member := List.mem_of_getElem? at_seat
    rw [(owned.wraps seat slot owner at_seat enabled held).unsealSlot_iff opens (differ slot member)
      (rejects slot member) (inUse ownerMember) passphraseUsed answer, roster_holds_iff]
    constructor
    · intro opened
      exact ⟨⟨slot, at_seat, enabled, by rw [held, opened.1]⟩, opened.2⟩
    · intro opened
      obtain ⟨_, _, _, named⟩ := opened.1
      rw [held] at named
      exact ⟨Option.some.inj named, opened.2⟩
  rw [unsealWith_eq_ok_iff]
  constructor
  · intro ⟨slot, at_idx, enabled, opened, before⟩
    obtain ⟨holds, same⟩ := (opensFor idx slot at_idx enabled found).mp opened
    refine ⟨⟨holds, fun earlier less held => ?_⟩, same⟩
    obtain ⟨other, at_earlier, otherEnabled, _⟩ := (roster_holds_iff _ _ _ _).mp held
    exact before earlier less other at_earlier otherEnabled _
      ((opensFor earlier other at_earlier otherEnabled _).mpr ⟨held, rfl⟩)
  · intro ⟨⟨holds, first⟩, same⟩
    obtain ⟨slot, at_idx, enabled, _⟩ := (roster_holds_iff _ _ _ _).mp holds
    refine ⟨slot, at_idx, enabled, (opensFor idx slot at_idx enabled found).mpr ⟨holds, same⟩, ?_⟩
    intro earlier less other at_earlier otherEnabled answer opened
    exact first earlier less ((opensFor earlier other at_earlier otherEnabled answer).mp opened).1

end
end Owned
end KeySlotTable
end SoteriaAegis.Slots
