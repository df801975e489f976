import SoteriaAegis.Vault.Access

/-! Opening a vault by passphrase, in every state that a run can reach. -/

namespace SoteriaAegis.Vault
open Rust Crypto Slots Access

def inUse (ops : List AccessOp) (passphrase : List UInt8) : List (List UInt8) :=
  passphrase :: ops.flatMap AccessOp.passphrases

/-- Passphrases in use are told apart by every slot that occurs in the run. -/
def ToldApart (crates : Crates) (start : AegisVault) (ops : List AccessOp) (used : List (List UInt8)) : Prop :=
  ∀ state, Visits (AccessOp.audit crates) ⟨start, []⟩ ops state → ∀ table ∈ state.vault.slots,
    ∀ slot ∈ table.slots, KeysDiffer crates used slot ∧ RejectsOtherKeys crates used slot

def Audited.apart (crates : Crates) (used : List (List UInt8)) (state : Audited) : Bool :=
  state.vault.slots.all fun table => table.slots.all (KeySlot.apart crates used)

variable {crates : Crates} {start : AegisVault} {ops : List AccessOp} {used : List (List UInt8)} {state : Audited}

theorem toldApart_of_check (opens : crates.OpensSealed)
    (passed : ops.inits.all (fun before =>
      (run (AccessOp.audit crates) ⟨start, []⟩ before).all (Audited.apart crates used)) = true) :
    ToldApart crates start ops used := by
  intro state visited table held slot member
  have apart := visited.passes passed
  rw [Audited.apart, held] at apart
  exact KeySlot.apart_spec opens (List.all_eq_true.mp apart slot member)

theorem visited_shared (opens : crates.OpensSealed) (created : Created crates start)
    (named : ops.flatMap AccessOp.passphrases ⊆ used) (apart : ToldApart crates start ops used)
    (visited : Visits (AccessOp.audit crates) ⟨start, []⟩ ops state) :
    (∃ raw, Shared crates used raw state) ∧ Relation.ReflTransGen (Roster.Step MAX_SLOTS) none state.seats := by
  apply visits_induction (fun state => (∃ raw, Shared crates used raw state) ∧
    Relation.ReflTransGen (Roster.Step MAX_SLOTS) none state.seats) _ _ visited
  · obtain ⟨master, made⟩ := created.fromMaster
    obtain ⟨hierarchy, derived, rfl⟩ := (AegisVault.fromMasterKey_eq_ok_iff crates _ _).mp made
    refine ⟨⟨master, rfl, derived, ?_, List.nil_subset used⟩, Relation.ReflTransGen.refl⟩
    intro table impossible
    cases impossible
  · intro before op next taken invariant stepped
    obtain ⟨⟨raw, shared⟩, seats⟩ := invariant
    have rejects : ∀ table ∈ before.vault.slots, ∀ slot ∈ table.slots, RejectsOtherKeys crates used slot :=
      fun table held slot member => (apart before taken.visits table held slot member).2
    have passphrases : op.passphrases ⊆ used := by
      intro passphrase member
      exact named (List.mem_flatMap.mpr ⟨op, taken.mem, member⟩)
    obtain ⟨now, kept, moved⟩ := shared.step opens passphrases rejects stepped
    exact ⟨⟨now, kept⟩, seats.tail moved⟩

theorem Shared.opens_iff {raw : U8Array MASTER_LEN} (shared : Shared crates used raw state)
    (opens : crates.OpensSealed) {passphrase : List UInt8} (passphraseUsed : passphrase ∈ used)
    {table : KeySlotTable} (held : state.vault.slots = some table)
    (apart : ∀ slot ∈ table.slots, KeysDiffer crates used slot ∧ RejectsOtherKeys crates used slot)
    (other : AegisVault) :
    (AegisVault.openFromSlots crates (table.toBytes crates) table.headerSalt passphrase other).1 = .ok () ↔
      (table.roster state.owners).Admits passphrase := by
  have owned := shared.owned table held
  have rejects : ∀ slot ∈ table.slots, RejectsOtherKeys crates used slot := fun slot member => (apart slot member).2
  have differ : ∀ slot ∈ table.slots, KeysDiffer crates used slot := fun slot member => (apart slot member).1
  have unsealed := owned.unsealWith_iff opens shared.inUse passphraseUsed differ rejects
  rw [Roster.admits_iff_first]
  constructor
  · intro succeeded
    obtain ⟨_, _, _, recovered, _⟩ := AegisVault.openFromSlots_eq_ok_iff.mp (Method.eq_of_fst _ succeeded)
    obtain ⟨_, _, ⟨idx, found⟩, opened⟩ :=
      (recovered_iff owned opens shared.inUse passphraseUsed rejects).mp recovered
    exact ⟨idx, ((unsealed idx found).mp opened).1⟩
  · intro ⟨idx, first⟩
    have opened := (unsealed idx _).mpr ⟨first, rfl⟩
    have recovered := (recovered_iff owned opens shared.inUse passphraseUsed rejects).mpr ⟨rfl, rfl, _, opened⟩
    have done : AegisVault.openFromSlots crates (table.toBytes crates) table.headerSalt passphrase other =
        (.ok (), ⟨AegisKey.new32 raw, state.vault.hierarchy, some table⟩) :=
      AegisVault.openFromSlots_eq_ok_iff.mpr ⟨table, raw, _, recovered, shared.hierarchy, rfl⟩
    exact congrArg Prod.fst done

/-- A vault with a table is never locked for good: some passphrase of the run opens it. -/
theorem someone_opens (opens : crates.OpensSealed) (created : Created crates start)
    (apart : ToldApart crates start ops (ops.flatMap AccessOp.passphrases))
    (visited : Visits (AccessOp.audit crates) ⟨start, []⟩ ops state) {table : KeySlotTable}
    (held : state.vault.slots = some table) (other : AegisVault) :
    ∃ passphrase ∈ state.owners,
      (AegisVault.openFromSlots crates (table.toBytes crates) table.headerSalt passphrase other).1 = .ok () := by
  obtain ⟨⟨raw, shared⟩, seats⟩ := visited_shared opens created (List.Subset.refl _) apart visited
  have present : table.roster state.owners ∈ state.seats := by
    rw [Audited.seats, held]
    rfl
  obtain ⟨_, passphrase, seat, holds⟩ := Roster.run_admits (by decide) seats _ present
  obtain ⟨_, _, _, owned⟩ := (KeySlotTable.roster_holds_iff _ _ _ _).mp holds
  have member := List.mem_of_getElem? owned
  refine ⟨passphrase, member, ?_⟩
  exact (shared.opens_iff opens (shared.inUse member) held (apart state visited table held) other).mpr ⟨seat, holds⟩

/-- Access is exact: a passphrase opens the stored table when an enabled slot was created with
it, the search then stops at the first such slot, and the live master comes back. -/
theorem access_exact (opens : crates.OpensSealed) (created : Created crates start) (ops : List AccessOp)
    (final : Audited) (ran : run (AccessOp.audit crates) ⟨start, []⟩ ops = some final) (passphrase : List UInt8)
    (apart : ToldApart crates start ops (inUse ops passphrase)) (table : KeySlotTable)
    (held : final.vault.slots = some table) :
    (∀ other, (AegisVault.openFromSlots crates (table.toBytes crates) table.headerSalt passphrase other).1 = .ok () ↔
      (table.roster final.owners).Admits passphrase) ∧
    ∀ idx found, table.unsealWith crates passphrase = .ok (idx, found) ↔
      (table.roster final.owners).First passphrase idx ∧ found = final.vault.master := by
  have visited := Visits.last ran
  obtain ⟨⟨raw, shared⟩, _⟩ := visited_shared opens created (List.subset_cons_self _ _) apart visited
  have here := apart final visited table held
  refine ⟨shared.opens_iff opens List.mem_cons_self held here, fun idx found => ?_⟩
  rw [shared.master]
  exact (shared.owned table held).unsealWith_iff opens shared.inUse List.mem_cons_self
    (fun slot member => (here slot member).1) (fun slot member => (here slot member).2) idx found

def replacedMember : List AccessOp :=
  [.call (.sealSlots (ascii "alice") TableDraws.blank), .call (.addSlot (ascii "bob") TableDraws.blank),
    .call (.revokeSlot 0),
    .reload ⟨AegisKey.new [], KeyHierarchy.legacySingleKey (U8Array.zeros 32), none⟩ (ascii "bob")]

theorem access_exact_replaced : ∃ start final table, Created checksumCrates start ∧
    run (AccessOp.audit checksumCrates) ⟨start, []⟩ replacedMember = some final ∧ final.vault.slots = some table ∧
    ∀ idx found, table.unsealWith checksumCrates (ascii "bob") = .ok (idx, found) ↔
      (table.roster final.owners).First (ascii "bob") idx ∧ found = final.vault.master := by
  have reached : (AegisVault.fromMasterKey checksumCrates (U8Array.zeros 32)).toOption.any (fun start =>
      (replacedMember.inits.all fun before => (run (AccessOp.audit checksumCrates) ⟨start, []⟩ before).all
        (Audited.apart checksumCrates (inUse replacedMember (ascii "bob")))) &&
      (run (AccessOp.audit checksumCrates) ⟨start, []⟩ replacedMember).any fun final =>
        final.vault.slots.isSome) = true := by
    decide +kernel
  obtain ⟨start, made, passed⟩ := Outcome.ok_of_any reached
  obtain ⟨checked, finished⟩ := Bool.and_eq_true_iff.mp passed
  obtain ⟨final, ran, present⟩ := (Option.any_eq_true _ _).mp finished
  obtain ⟨table, held⟩ := Option.isSome_iff_exists.mp present
  have created : Created checksumCrates start := Created.fromMasterKey made
  have apart := toldApart_of_check checksumCrates_opensSealed checked
  exact ⟨start, final, table, created, ran, held,
    (access_exact checksumCrates_opensSealed created replacedMember final ran (ascii "bob") apart table held).2⟩

end SoteriaAegis.Vault
