import SoteriaAegis.Vault.Opening

/-! What revocation takes away from a passphrase. There are two roads to the master: through a
slot, which revocation closes, and through the derivation that made the vault, which it does
not. -/

namespace SoteriaAegis.Vault
open Rust Crypto Slots Access

/-- The calls that manage the members of a vault and leave its master alone. -/
inductive MemberOp where
  | sealSlots (passphrase : List UInt8) (draws : TableDraws)
  | addSlot (passphrase : List UInt8) (draws : TableDraws)
  | revokeSlot (idx : Nat)

def MemberOp.call : MemberOp → AccessOp
  | sealSlots passphrase draws => .call (.sealSlots passphrase draws)
  | addSlot passphrase draws => .call (.addSlot passphrase draws)
  | revokeSlot idx => .call (.revokeSlot idx)

/-- Every slot that was created with the passphrase has been revoked. -/
def Revoked (passphrase : List UInt8) (state : Audited) : Prop :=
  ∀ table ∈ state.vault.slots, ∀ (seat : Nat) (slot : KeySlot), table.slots[seat]? = some slot →
    state.owners[seat]? = some passphrase → slot.isEnabled = false

variable {crates : Crates} {start : AegisVault} {state next : Audited}

theorem MemberOp.audit_master {op : MemberOp} (stepped : op.call.audit crates state = some next) :
    next.vault.master = state.vault.master := by
  cases op with
  | sealSlots passphrase draws =>
    rcases record_cases stepped with ⟨_, done, _⟩ | ⟨_, failed, _⟩
    · obtain ⟨_, table, _, _, written⟩ := AegisVault.sealSlots_ok done
      rw [written]
    · rw [AegisVault.sealSlots_err failed]
  | addSlot passphrase draws =>
    rcases record_cases stepped with ⟨_, done, _⟩ | ⟨_, failed, _⟩
    · obtain ⟨_, _, ⟨_, _, _, _, _, _, written⟩ | ⟨_, _, _, _, written⟩⟩ := AegisVault.addSlot_ok done
      · rw [written]
      · rw [written]
    · rw [AegisVault.addSlot_err failed]
  | revokeSlot idx =>
    rcases record_cases stepped with ⟨_, done, _⟩ | ⟨_, failed, _⟩
    · obtain ⟨_, _, _, _, ⟨_, same⟩ | ⟨_, _, written⟩⟩ := AegisVault.revokeSlot_ok done
      · rw [same]
      · rw [written]
    · rw [AegisVault.revokeSlot_err failed]

theorem MemberOp.run_master {ops : List MemberOp}
    (ran : run (AccessOp.audit crates) ⟨start, []⟩ (ops.map MemberOp.call) = some state) :
    state.vault.master = start.master := by
  refine visits_induction (fun state => state.vault.master = start.master) rfl ?_ (Visits.last ran)
  intro before op after taken kept stepped
  obtain ⟨called, _, rfl⟩ := List.mem_map.mp taken.mem
  exact (called.audit_master stepped).trans kept

theorem Revoked.not_admits {passphrase : List UInt8} (revoked : Revoked passphrase state) {table : KeySlotTable}
    (held : state.vault.slots = some table) : ¬(table.roster state.owners).Admits passphrase := by
  intro ⟨seat, holds⟩
  obtain ⟨slot, found, enabled, owned⟩ := (KeySlotTable.roster_holds_iff _ _ _ _).mp holds
  have disabled := revoked table held seat slot found owned
  rw [enabled] at disabled
  cases disabled

theorem unlock_same_master {first second salt : List UInt8} {memoryKib iterations : UInt32} {v w : AegisVault}
    (unlocked : AegisVault.unlock crates first salt memoryKib iterations = .ok v)
    (again : AegisVault.unlock crates second salt memoryKib iterations = .ok w) :
    w.master = v.master ↔ argon2idRoot crates second salt memoryKib iterations =
      argon2idRoot crates first salt memoryKib iterations := by
  obtain ⟨raw, derived, made⟩ := (AegisVault.unlock_eq_ok_iff crates _ _ _ _ _).mp unlocked
  obtain ⟨_, _, rfl⟩ := (AegisVault.fromMasterKey_eq_ok_iff crates _ _).mp made
  obtain ⟨other, otherDerived, otherMade⟩ := (AegisVault.unlock_eq_ok_iff crates _ _ _ _ _).mp again
  obtain ⟨_, _, rfl⟩ := (AegisVault.fromMasterKey_eq_ok_iff crates _ _).mp otherMade
  rw [derived, otherDerived, Outcome.ok.injEq]

/-- Once all slots of a passphrase are revoked the stored table does not open for it. The
derivation with the vault's salt and costs still gives the live master to the passphrase that
made the vault, and to no other with another key. -/
theorem revoked_access (opens : crates.OpensSealed) {founder salt : List UInt8} {memoryKib iterations : UInt32}
    (unlocked : AegisVault.unlock crates founder salt memoryKib iterations = .ok start) (ops : List MemberOp)
    (final : Audited) (ran : run (AccessOp.audit crates) ⟨start, []⟩ (ops.map MemberOp.call) = some final)
    (passphrase : List UInt8)
    (apart : ToldApart crates start (ops.map MemberOp.call) (inUse (ops.map MemberOp.call) passphrase))
    (revoked : Revoked passphrase final) :
    (∀ table, final.vault.slots = some table → ∀ other,
      (AegisVault.openFromSlots crates (table.toBytes crates) table.headerSalt passphrase other).1 ≠ .ok ()) ∧
    ∀ vault, AegisVault.unlock crates passphrase salt memoryKib iterations = .ok vault →
      (vault.master = final.vault.master ↔ argon2idRoot crates passphrase salt memoryKib iterations =
        argon2idRoot crates founder salt memoryKib iterations) := by
  constructor
  · intro table held other opened
    have visited := Visits.last ran
    obtain ⟨⟨raw, shared⟩, _⟩ :=
      visited_shared opens (Created.unlock unlocked) (List.subset_cons_self _ _) apart visited
    have here := apart final visited table held
    exact revoked.not_admits held ((shared.opens_iff opens List.mem_cons_self held here other).mp opened)
  · intro vault again
    rw [MemberOp.run_master ran]
    exact unlock_same_master unlocked again

def handOver : List MemberOp :=
  [.sealSlots (ascii "alice") TableDraws.blank, .addSlot (ascii "bob") TableDraws.blank, .revokeSlot 0]

def Audited.revoked (passphrase : List UInt8) (state : Audited) : Bool :=
  state.vault.slots.all fun table => (table.slots.zip state.owners).all fun entry =>
    entry.2 != passphrase || !entry.1.isEnabled

theorem Audited.revoked_spec {passphrase : List UInt8} (passed : state.revoked passphrase = true) :
    Revoked passphrase state := by
  intro table held seat slot found owned
  rw [Audited.revoked, held, Option.all_some, List.all_eq_true] at passed
  have entry : (table.slots.zip state.owners)[seat]? = some (slot, passphrase) :=
    List.getElem?_zip_eq_some.mpr ⟨found, owned⟩
  have here := passed _ (List.mem_of_getElem? entry)
  simpa using here

theorem handOver_reached : ∃ start final, AegisVault.unlock checksumCrates (ascii "alice") (ascii "some salt") 32768 2 =
      .ok start ∧ run (AccessOp.audit checksumCrates) ⟨start, []⟩ (handOver.map MemberOp.call) = some final ∧
      ToldApart checksumCrates start (handOver.map MemberOp.call)
        (inUse (handOver.map MemberOp.call) (ascii "alice")) ∧
      Revoked (ascii "alice") final ∧ final.vault.slots.isSome = true := by
  have reached : (AegisVault.unlock checksumCrates (ascii "alice") (ascii "some salt") 32768 2).toOption.any
      (fun start => ((handOver.map MemberOp.call).inits.all fun before =>
        (run (AccessOp.audit checksumCrates) ⟨start, []⟩ before).all
          (Audited.apart checksumCrates (inUse (handOver.map MemberOp.call) (ascii "alice")))) &&
      (run (AccessOp.audit checksumCrates) ⟨start, []⟩ (handOver.map MemberOp.call)).any fun final =>
        final.revoked (ascii "alice") && final.vault.slots.isSome) = true := by
    decide +kernel
  obtain ⟨start, unlocked, passed⟩ := Outcome.ok_of_any reached
  obtain ⟨checked, finished⟩ := Bool.and_eq_true_iff.mp passed
  obtain ⟨final, ran, left⟩ := (Option.any_eq_true _ _).mp finished
  obtain ⟨revoked, present⟩ := Bool.and_eq_true_iff.mp left
  exact ⟨start, final, unlocked, ran,
    toldApart_of_check checksumCrates_opensSealed checked, Audited.revoked_spec revoked, present⟩

theorem revoked_access_handOver : ∃ start final,
    run (AccessOp.audit checksumCrates) ⟨start, []⟩ (handOver.map MemberOp.call) = some final ∧
      final.vault.slots.isSome = true ∧
      ∀ table, final.vault.slots = some table → ∀ other, (AegisVault.openFromSlots checksumCrates
        (table.toBytes checksumCrates) table.headerSalt (ascii "alice") other).1 ≠ .ok () := by
  obtain ⟨start, final, unlocked, ran, apart, revoked, present⟩ := handOver_reached
  exact ⟨start, final, ran, present,
    (revoked_access checksumCrates_opensSealed unlocked handOver final ran (ascii "alice") apart revoked).1⟩

/-- The founder's slot is revoked, and the founder still derives the live master. -/
theorem founder_keeps_master : ∃ start final vault,
    AegisVault.unlock checksumCrates (ascii "alice") (ascii "some salt") 32768 2 = .ok start ∧
      run (AccessOp.audit checksumCrates) ⟨start, []⟩ (handOver.map MemberOp.call) = some final ∧
      ToldApart checksumCrates start (handOver.map MemberOp.call)
        (inUse (handOver.map MemberOp.call) (ascii "alice")) ∧
      Revoked (ascii "alice") final ∧
      AegisVault.unlock checksumCrates (ascii "alice") (ascii "some salt") 32768 2 = .ok vault ∧
      vault.master = final.vault.master := by
  obtain ⟨start, final, unlocked, ran, apart, revoked, _⟩ := handOver_reached
  exact ⟨start, final, start, unlocked, ran, apart, revoked, unlocked, (MemberOp.run_master ran).symm⟩

end SoteriaAegis.Vault
