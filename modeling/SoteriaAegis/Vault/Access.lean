import SoteriaAegis.Vault.Coherence

/-! Who gets into a vault. A run is audited: next to the vault stands the passphrase each slot
of its table was created with. The audit is erased again, and the seats it shows follow the
rules of a shared secret. -/

namespace SoteriaAegis.Vault
open Rust Crypto Slots Access

@[ext]
structure Audited where
  vault : AegisVault
  owners : List (List UInt8)

/-- A local call, or saving the table and opening it again in another vault. -/
inductive AccessOp where
  | call (op : LocalOp)
  | reload (other : AegisVault) (passphrase : List UInt8)

/-- Only a call that succeeded changes who owns the slots. -/
def record {α : Type} (owners granted : List (List UInt8)) : AegisResult α × AegisVault → Option Audited
  | (.ok _, next) => some ⟨next, granted⟩
  | (.err _, next) => some ⟨next, owners⟩
  | (.panic, _) => none

variable (crates : Crates)

def LocalOp.audit (state : Audited) : LocalOp → Option Audited
  | sealSlots passphrase draws =>
    record state.owners [passphrase] (AegisVault.sealSlots crates passphrase draws state.vault)
  | addSlot passphrase draws =>
    let granted := match state.vault.slots with
      | some _ => state.owners ++ [passphrase]
      | none => [passphrase]
    record state.owners granted (AegisVault.addSlot crates passphrase draws state.vault)
  | revokeSlot idx => record state.owners state.owners (AegisVault.revokeSlot idx state.vault)
  | rotateMaster fresh => record state.owners [] (AegisVault.rotateMaster crates fresh state.vault)

/-- A vault that cannot be opened again stays in use as it is. -/
def reload (vault other : AegisVault) (passphrase : List UInt8) : Option AegisVault :=
  match vault.slotsToBytes crates, vault.slotsHeaderSalt with
  | some tableBytes, some headerSalt =>
    match AegisVault.openFromSlots crates tableBytes headerSalt passphrase other with
    | (.ok _, next) => some next
    | (.err _, _) => some vault
    | (.panic, _) => none
  | _, _ => some vault

def AccessOp.step (vault : AegisVault) : AccessOp → Option AegisVault
  | call op => op.step crates vault
  | reload other passphrase => Vault.reload crates vault other passphrase

def AccessOp.audit (state : Audited) : AccessOp → Option Audited
  | call op => op.audit crates state
  | reload other passphrase =>
    (Vault.reload crates state.vault other passphrase).map fun next => ⟨next, state.owners⟩

theorem record_vault {α : Type} (owners granted : List (List UInt8)) (call : Method AegisVault AegisError α)
    (vault : AegisVault) : (record owners granted (call vault)).map Audited.vault = call.after vault := by
  unfold record Method.after
  cases call vault with
  | mk result next =>
    cases result with
    | ok value => rfl
    | err error => rfl
    | panic => rfl

theorem AccessOp.audit_vault (state : Audited) (op : AccessOp) :
    (op.audit crates state).map Audited.vault = op.step crates state.vault := by
  cases op with
  | call op =>
    cases op with
    | sealSlots passphrase draws => exact record_vault _ _ _ _
    | addSlot passphrase draws => exact record_vault _ _ _ _
    | revokeSlot idx => exact record_vault _ _ _ _
    | rotateMaster fresh => exact record_vault _ _ _ _
  | reload other passphrase =>
    cases reloaded : Vault.reload crates state.vault other passphrase with
    | none => simp only [AccessOp.audit, AccessOp.step, reloaded, Option.map_none]
    | some next => simp only [AccessOp.audit, AccessOp.step, reloaded, Option.map_some]

/-- The audit only watches: without it the run is the same. -/
theorem audit_erased (ops : List AccessOp) (state : Audited) :
    (run (AccessOp.audit crates) state ops).map Audited.vault = run (AccessOp.step crates) state.vault ops :=
  run_map (AccessOp.audit_vault crates) ops

def AccessOp.passphrases : AccessOp → List (List UInt8)
  | call (.sealSlots passphrase _) => [passphrase]
  | call (.addSlot passphrase _) => [passphrase]
  | reload _ passphrase => [passphrase]
  | _ => []

def Audited.seats (state : Audited) : Option (Roster (List UInt8)) :=
  state.vault.slots.map fun table => table.roster state.owners

/-- The audited state of a vault whose every slot wraps the live master. -/
structure Shared (used : List (List UInt8)) (raw : U8Array MASTER_LEN) (state : Audited) : Prop where
  master : state.vault.master = AegisKey.new32 raw
  hierarchy : KeyHierarchy.fromMaster crates raw.val = .ok state.vault.hierarchy
  owned : ∀ table ∈ state.vault.slots, KeySlotTable.Owned crates raw state.owners table
  inUse : state.owners ⊆ used

variable {crates} {used : List (List UInt8)} {raw : U8Array MASTER_LEN} {state next : Audited}

theorem record_cases {α : Type} {owners granted : List (List UInt8)} {outcome : AegisResult α × AegisVault}
    (recorded : record owners granted outcome = some next) :
    (∃ value, outcome = (.ok value, next.vault) ∧ next.owners = granted) ∨
      ∃ error, outcome = (.err error, next.vault) ∧ next.owners = owners := by
  obtain ⟨result, after⟩ := outcome
  cases result with
  | ok value =>
    cases recorded
    exact Or.inl ⟨value, rfl, rfl⟩
  | err error =>
    cases recorded
    exact Or.inr ⟨error, rfl, rfl⟩
  | panic => cases recorded

namespace Shared

theorem unchanged (shared : Shared crates used raw state) (same : next = state) :
    Shared crates used raw next ∧ Roster.Step MAX_SLOTS state.seats next.seats := by
  subst same
  exact ⟨shared, Roster.Step.stay _⟩

theorem establish (shared : Shared crates used raw state) {passphrase : List UInt8} (passphraseUsed : passphrase ∈ used)
    {draws : TableDraws} {table : KeySlotTable}
    (made : KeySlotTable.newInitial crates raw passphrase draws = .ok table)
    (same : next = ⟨{ state.vault with slots := some table }, [passphrase]⟩) :
    Shared crates used raw next ∧ Roster.Step MAX_SLOTS state.seats next.seats := by
  subst same
  have owned := KeySlotTable.Owned.of_newInitial made
  obtain ⟨slot, created, rfl⟩ := (KeySlotTable.newInitial_eq_ok_iff crates _ _ _ _).mp made
  have enabled := KeySlot.create_enabled crates created
  refine ⟨⟨shared.master, shared.hierarchy, ?_, ?_⟩, ?_⟩
  · intro held same
    cases same
    exact owned
  · intro owner member
    rw [List.mem_singleton.mp member]
    exact passphraseUsed
  · have seats : Audited.seats ⟨{ state.vault with slots := some ⟨draws.headerSalt, [slot],
        volumeVerifier crates raw⟩ }, [passphrase]⟩ = some [(passphrase, true)] := by
      simp only [Audited.seats, Option.map_some, KeySlotTable.roster, List.map_cons, List.map_nil, enabled]
      rfl
    rw [seats]
    exact Roster.Step.establish _ passphrase

theorem enroll (shared : Shared crates used raw state) {passphrase : List UInt8} (passphraseUsed : passphrase ∈ used)
    {draws : SlotDraws} {table : KeySlotTable} {slot : KeySlot} (held : state.vault.slots = some table)
    (room : table.slots.length < MAX_SLOTS)
    (created : KeySlot.create crates raw passphrase 64 3 draws = .ok slot)
    (same : next = ⟨{ state.vault with slots := some { table with slots := table.slots ++ [slot] } },
      state.owners ++ [passphrase]⟩) :
    Shared crates used raw next ∧ Roster.Step MAX_SLOTS state.seats next.seats := by
  subst same
  have owned := shared.owned table held
  refine ⟨⟨shared.master, shared.hierarchy, ?_, ?_⟩, ?_⟩
  · intro grown same
    cases same
    exact owned.append room created
  · intro owner member
    rcases List.mem_append.mp member with old | new
    · exact shared.inUse old
    · rw [List.mem_singleton.mp new]
      exact passphraseUsed
  · have grown := KeySlotTable.roster_append owned.count passphrase (KeySlot.create_enabled crates created)
    simp only [Audited.seats, held, Option.map_some]
    rw [grown]
    apply Roster.Step.enroll
    rwa [KeySlotTable.roster, List.length_zip, List.length_map, owned.count, Nat.min_self]

theorem revoke (shared : Shared crates used raw state) {table : KeySlotTable} {idx : Nat}
    (held : state.vault.slots = some table) (several : 1 < table.enabledCount)
    (same : next = ⟨{ state.vault with slots := some { table with
      slots := table.slots.modify idx KeySlot.revoked } }, state.owners⟩) :
    Shared crates used raw next ∧ Roster.Step MAX_SLOTS state.seats next.seats := by
  subst same
  have owned := shared.owned table held
  refine ⟨⟨shared.master, shared.hierarchy, ?_, shared.inUse⟩, ?_⟩
  · intro wiped same
    cases same
    exact owned.modify_revoked idx
  · simp only [Audited.seats, held, Option.map_some]
    rw [KeySlotTable.roster_revoke]
    apply Roster.Step.revoke
    rwa [KeySlotTable.roster_active owned.count]

theorem rotate {fresh : U8Array MASTER_LEN} {hierarchy : KeyHierarchy}
    (derived : KeyHierarchy.fromMaster crates fresh.val = .ok hierarchy)
    (same : next = ⟨⟨AegisKey.new32 fresh, hierarchy, none⟩, []⟩) :
    Shared crates used fresh next ∧ Roster.Step MAX_SLOTS state.seats next.seats := by
  subst same
  refine ⟨⟨rfl, derived, ?_, ?_⟩, Roster.Step.dissolve _⟩
  · intro table impossible
    cases impossible
  · intro owner impossible
    cases impossible

theorem local_step (shared : Shared crates used raw state) {op : LocalOp}
    (named : (AccessOp.call op).passphrases ⊆ used)
    (stepped : op.audit crates state = some next) :
    ∃ now, Shared crates used now next ∧ Roster.Step MAX_SLOTS state.seats next.seats := by
  have live : ∀ {other}, state.vault.master = AegisKey.new32 other → other = raw :=
    fun master => AegisKey.new32_injective (master.symm.trans shared.master)
  cases op with
  | sealSlots passphrase draws =>
    rcases record_cases stepped with ⟨_, done, owners⟩ | ⟨_, failed, owners⟩
    · obtain ⟨found, table, master, made, vault⟩ := AegisVault.sealSlots_ok done
      rw [live master] at made
      exact ⟨raw, shared.establish (named (List.mem_singleton_self passphrase)) made (Audited.ext vault owners)⟩
    · exact ⟨raw, shared.unchanged (Audited.ext (AegisVault.sealSlots_err failed) owners)⟩
  | addSlot passphrase draws =>
    rcases record_cases stepped with ⟨_, done, owners⟩ | ⟨_, failed, owners⟩
    · obtain ⟨found, master, added⟩ := AegisVault.addSlot_ok done
      rw [live master] at added
      rcases added with ⟨table, slot, held, room, _, created, vault⟩ | ⟨table, empty, _, made, vault⟩
      · rw [held] at owners
        exact ⟨raw, shared.enroll (named (List.mem_singleton_self passphrase)) held room created (Audited.ext vault owners)⟩
      · rw [empty] at owners
        exact ⟨raw, shared.establish (named (List.mem_singleton_self passphrase)) made (Audited.ext vault owners)⟩
    · exact ⟨raw, shared.unchanged (Audited.ext (AegisVault.addSlot_err failed) owners)⟩
  | revokeSlot idx =>
    rcases record_cases stepped with ⟨_, done, owners⟩ | ⟨_, failed, owners⟩
    · obtain ⟨table, slot, held, _, revoked⟩ := AegisVault.revokeSlot_ok done
      rcases revoked with ⟨_, vault⟩ | ⟨_, several, vault⟩
      · exact ⟨raw, shared.unchanged (Audited.ext vault owners)⟩
      · exact ⟨raw, shared.revoke held several (Audited.ext vault owners)⟩
    · exact ⟨raw, shared.unchanged (Audited.ext (AegisVault.revokeSlot_err failed) owners)⟩
  | rotateMaster fresh =>
    rcases record_cases stepped with ⟨_, done, owners⟩ | ⟨_, failed, _⟩
    · obtain ⟨hierarchy, derived, vault⟩ := AegisVault.rotateMaster_ok done
      exact ⟨fresh, rotate derived (Audited.ext vault owners)⟩
    · exact absurd failed (AegisVault.rotateMaster_ne_err _ _)

section
variable (opens : crates.OpensSealed) {passphrase : List UInt8} (passphraseUsed : passphrase ∈ used)
  (rejects : ∀ table ∈ state.vault.slots, ∀ slot ∈ table.slots, RejectsOtherKeys crates used slot)
include opens passphraseUsed rejects

theorem reload_step (shared : Shared crates used raw state) {other : AegisVault}
    (stepped : AccessOp.audit crates state (.reload other passphrase) = some next) :
    ∃ now, Shared crates used now next ∧ Roster.Step MAX_SLOTS state.seats next.seats := by
  obtain ⟨after, reloaded, rfl⟩ := Option.map_eq_some_iff.mp stepped
  unfold reload AegisVault.slotsToBytes AegisVault.slotsHeaderSalt at reloaded
  cases held : state.vault.slots with
  | none =>
    rw [held] at reloaded
    cases reloaded
    exact ⟨raw, shared.unchanged rfl⟩
  | some table =>
    simp only [held, Option.map_some] at reloaded
    cases opening : AegisVault.openFromSlots crates (table.toBytes crates) table.headerSalt passphrase other with
    | mk result opened =>
      rw [opening] at reloaded
      cases result with
      | ok value =>
        cases reloaded
        obtain ⟨found, master, hierarchy, recovers, derived, rfl⟩ := AegisVault.openFromSlots_eq_ok_iff.mp opening
        obtain ⟨rfl, rfl, _⟩ := (recovered_iff (shared.owned table held) opens shared.inUse passphraseUsed
          (rejects table held)).mp recovers
        refine ⟨master, ⟨rfl, derived, ?_, shared.inUse⟩, ?_⟩
        · intro table same
          cases same
          exact shared.owned _ held
        · simp only [Audited.seats, held, Option.map_some]
          exact Roster.Step.stay _
      | err error =>
        cases reloaded
        exact ⟨raw, shared.unchanged rfl⟩
      | panic => cases reloaded

end

theorem step (opens : crates.OpensSealed) (shared : Shared crates used raw state) {op : AccessOp}
    (named : op.passphrases ⊆ used)
    (rejects : ∀ table ∈ state.vault.slots, ∀ slot ∈ table.slots, RejectsOtherKeys crates used slot)
    (stepped : op.audit crates state = some next) :
    ∃ now, Shared crates used now next ∧ Roster.Step MAX_SLOTS state.seats next.seats := by
  cases op with
  | call op => exact shared.local_step named stepped
  | reload other passphrase => exact shared.reload_step opens (named (List.mem_singleton_self passphrase)) rejects stepped

end Shared
end SoteriaAegis.Vault
