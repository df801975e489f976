import SoteriaAegis.Vault.Vault
import SoteriaAegis.Slots.Members

/-! A table's verifier is that of its first master, while each later slot wraps the master
its caller passes. -/

namespace SoteriaAegis.Vault
open Rust Crypto Slots Access

/-- Every enabled slot wraps a master that the table's verifier accepts, and there is one. -/
structure Bound (crates : Crates) (used : List (List UInt8)) (verifier : U8Array 32) (table : KeySlotTable) :
    Prop where
  same : table.verifier = verifier
  few : table.slots.length ≤ MAX_SLOTS
  manned : 0 < table.enabledCount
  wraps : ∀ slot ∈ table.slots, slot.isEnabled = true → ∃ owner ∈ used, ∃ master,
    volumeVerifier crates master = verifier ∧ Wraps crates slot owner master

namespace Bound
variable {crates : Crates} {used : List (List UInt8)} {verifier : U8Array 32} {table next : KeySlotTable}

theorem of_newInitial {master : U8Array MASTER_LEN} {passphrase : List UInt8} {draws : TableDraws}
    (passphraseUsed : passphrase ∈ used)
    (made : KeySlotTable.newInitial crates master passphrase draws = .ok table) :
    Bound crates used (volumeVerifier crates master) table := by
  obtain ⟨slot, created, rfl⟩ := (KeySlotTable.newInitial_eq_ok_iff crates _ _ _ _).mp made
  obtain ⟨wraps, _⟩ := (KeySlot.create_eq_ok_iff crates _ _ _ _ _ _).mp created
  refine ⟨rfl, show 1 ≤ MAX_SLOTS by decide, ?_, ?_⟩
  · exact KeySlotTable.newInitial_manned made
  · intro other member _
    rw [List.mem_singleton.mp member]
    exact ⟨passphrase, passphraseUsed, master, rfl, wraps⟩

theorem step (bound : Bound crates used verifier table) {call : TableCall}
    (named : call.passphrases ⊆ used)
    (agrees : ∀ master passphrase draws, call = .addSlot master passphrase draws →
      table.slots.length < MAX_SLOTS → volumeVerifier crates master = verifier)
    (stepped : call.step crates table = some next) : Bound crates used verifier next := by
  rcases call.step_cases crates stepped with
    rfl | ⟨master, passphrase, draws, slot, rfl, room, created, rfl⟩ | ⟨idx, slot, _, several, _, _, rfl⟩
  · exact bound
  · obtain ⟨wraps, _⟩ := (KeySlot.create_eq_ok_iff crates _ _ _ _ _ _).mp created
    refine ⟨bound.same, ?_, KeySlotTable.append_manned bound.manned slot, ?_⟩
    · rw [List.length_append]
      exact room
    · intro other member enabled
      rcases List.mem_append.mp member with before | new
      · exact bound.wraps other before enabled
      · rw [List.mem_singleton.mp new]
        exact ⟨passphrase, named (List.mem_singleton_self passphrase), master,
          agrees master passphrase draws rfl room, wraps⟩
  · refine ⟨bound.same, ?_, KeySlotTable.revoke_manned several idx, ?_⟩
    · rw [List.length_modify]
      exact bound.few
    · intro other member enabled
      obtain ⟨before, old, same⟩ := mem_modify_revoked member
      rcases same with rfl | rfl
      · exact bound.wraps other old enabled
      · rw [KeySlot.revoked_disabled] at enabled
        cases enabled

theorem unsealWith_verified (bound : Bound crates used verifier table) (opens : crates.OpensSealed)
    (rejects : ∀ slot ∈ table.slots, RejectsOtherKeys crates used slot) {passphrase : List UInt8}
    (passphraseUsed : passphrase ∈ used) {idx : Nat} {found : AegisKey}
    (opened : table.unsealWith crates passphrase = .ok (idx, found)) :
    ∃ master, found = AegisKey.new32 master ∧ volumeVerifier crates master = table.verifier := by
  obtain ⟨slot, at_idx, enabled, unsealed, _⟩ := (KeySlotTable.unsealWith_eq_ok_iff crates _ _ _ _).mp opened
  have member := List.mem_of_getElem? at_idx
  obtain ⟨owner, ownerUsed, master, accepted, wraps⟩ := bound.wraps slot member enabled
  exact ⟨master, (wraps.opened_same_key opens (rejects slot member) ownerUsed passphraseUsed unsealed).1,
    accepted.trans bound.same.symm⟩

end Bound

theorem openFromSlots_ne_mismatch {crates : Crates} {table : KeySlotTable} (small : table.slots.length < 256)
    {passphrase : List UInt8}
    (verified : ∀ idx found, table.unsealWith crates passphrase = .ok (idx, found) →
      ∃ master, found = AegisKey.new32 master ∧ volumeVerifier crates master = table.verifier) (vault : AegisVault) :
    (AegisVault.openFromSlots crates (table.toBytes crates) table.headerSalt passphrase vault).1 ≠
      .err .volumeMismatch := by
  intro mismatch
  have failed : AegisVault.openFromSlots crates (table.toBytes crates) table.headerSalt passphrase vault =
      (.err .volumeMismatch, _) := Method.eq_of_fst _ mismatch
  have read := KeySlotTable.fromBytes_toBytes crates table small
  rcases (Method.lift_bind_eq_err_iff _ _ _ _ _).mp failed with ⟨refused, _⟩ | ⟨found, again, rest⟩
  · rw [read] at refused
    cases refused
  rw [read] at again
  cases again
  rcases (Method.lift_bind_eq_err_iff _ _ _ _ _).mp rest with ⟨refused, _⟩ | ⟨⟨idx, answer⟩, opened, rest⟩
  · cases KeySlotTable.unsealFrom_err crates refused
  obtain ⟨master, rfl, accepted⟩ := verified idx answer opened
  simp only [AegisKey.expose_new32, U8Array.copyFromSlice_val] at rest
  rcases (Method.lift_bind_eq_err_iff _ _ _ _ _).mp rest with ⟨refused, _⟩ | ⟨copy, copied, rest⟩
  · cases refused
  cases copied
  simp only [accepted, ne_eq, not_true, if_false] at rest
  rw [Method.update_bind] at rest
  rcases (Method.lift_bind_eq_err_iff _ _ _ _ _).mp rest with ⟨refused, _⟩ | ⟨hierarchy, _, written⟩
  · cases KeyHierarchy.fromMaster_err crates refused
  · cases written

/-- While every addition to a table with room passes a master with the table's verifier, the
masters found are verified, no opening reports a mismatch, and a slot with such a master is left. -/
theorem reached_one_master {crates : Crates} (opens : crates.OpensSealed) {first : U8Array MASTER_LEN}
    {passphrase : List UInt8} {draws : TableDraws} {start : KeySlotTable}
    (made : KeySlotTable.newInitial crates first passphrase draws = .ok start) (calls : List TableCall)
    (agrees : ∀ state master added drawn,
      Takes (TableCall.step crates) start calls state (.addSlot master added drawn) →
      state.slots.length < MAX_SLOTS → volumeVerifier crates master = volumeVerifier crates first)
    (final : KeySlotTable) (ran : run (TableCall.step crates) start calls = some final) (tried : List UInt8)
    (rejects : ∀ slot ∈ final.slots,
      RejectsOtherKeys crates (tried :: passphrase :: calls.flatMap TableCall.passphrases) slot) :
    (∀ idx found, final.unsealWith crates tried = .ok (idx, found) →
      ∃ master, found = AegisKey.new32 master ∧ volumeVerifier crates master = final.verifier) ∧
    (∀ vault, (AegisVault.openFromSlots crates (final.toBytes crates) final.headerSalt tried vault).1 ≠
      .err .volumeMismatch) ∧
    ∃ slot ∈ final.slots, slot.isEnabled = true ∧ ∃ owner master, Wraps crates slot owner master ∧
      volumeVerifier crates master = final.verifier := by
  have bound : Bound crates (tried :: passphrase :: calls.flatMap TableCall.passphrases)
      (volumeVerifier crates first) final := by
    apply visits_induction (Bound crates (tried :: passphrase :: calls.flatMap TableCall.passphrases)
      (volumeVerifier crates first)) _ _ (Visits.last ran)
    · exact Bound.of_newInitial (List.mem_cons_of_mem _ List.mem_cons_self) made
    · intro state call next taken bound stepped
      apply bound.step _ _ stepped
      · intro owner member
        apply List.mem_cons_of_mem
        apply List.mem_cons_of_mem
        exact List.mem_flatMap.mpr ⟨call, taken.mem, member⟩
      · intro master added drawn same room
        subst same
        exact agrees state master added drawn taken room
  have verified : ∀ idx found, final.unsealWith crates tried = .ok (idx, found) →
      ∃ master, found = AegisKey.new32 master ∧ volumeVerifier crates master = final.verifier :=
    fun _ _ opened => bound.unsealWith_verified opens rejects List.mem_cons_self opened
  refine ⟨verified, ?_, ?_⟩
  · exact openFromSlots_ne_mismatch (KeySlotTable.countable bound.few) verified
  · obtain ⟨slot, member, enabled⟩ := (KeySlotTable.enabledCount_pos_iff _).mp bound.manned
    obtain ⟨owner, _, master, accepted, wraps⟩ := bound.wraps slot member enabled
    exact ⟨slot, member, enabled, owner, master, wraps, accepted.trans bound.same.symm⟩

theorem reached_one_master_revoked : ∃ start final,
    KeySlotTable.newInitial checksumCrates (U8Array.zeros 32) (ascii "alice") TableDraws.blank = .ok start ∧
    run (TableCall.step checksumCrates) start
      [.addSlot (U8Array.zeros 32) (ascii "bob") SlotDraws.blank, .revokeSlot 0] = some final ∧
    ∀ idx found, final.unsealWith checksumCrates (ascii "bob") = .ok (idx, found) →
      ∃ master, found = AegisKey.new32 master ∧ volumeVerifier checksumCrates master = final.verifier := by
  have reached : (KeySlotTable.newInitial checksumCrates (U8Array.zeros 32) (ascii "alice")
      TableDraws.blank).toOption.any (fun start => (run (TableCall.step checksumCrates) start
        [.addSlot (U8Array.zeros 32) (ascii "bob") SlotDraws.blank, .revokeSlot 0]).any fun final =>
          final.slots.all (KeySlot.apart checksumCrates [ascii "bob", ascii "alice", ascii "bob"])) = true := by
    decide +kernel
  obtain ⟨start, made, passed⟩ := Outcome.ok_of_any reached
  obtain ⟨final, ran, apart⟩ := (Option.any_eq_true _ _).mp passed
  refine ⟨start, final, made, ran, (reached_one_master checksumCrates_opensSealed made _ ?_ final ran (ascii "bob") ?_).1⟩
  · intro state master added drawn taken _
    have member := taken.mem
    simp only [List.mem_cons, TableCall.addSlot.injEq, reduceCtorEq, List.not_mem_nil, or_false] at member
    rw [member.1]
  · intro slot member
    exact (KeySlot.apart_spec checksumCrates_opensSealed (List.all_eq_true.mp apart slot member)).2

def otherMaster : U8Array MASTER_LEN := ⟨List.replicate 32 1, List.length_replicate⟩

/-- A member added with another master opens its slot and is refused for it at the vault. -/
theorem added_other_master : ∃ start final,
    KeySlotTable.newInitial checksumCrates (U8Array.zeros 32) (ascii "alice") TableDraws.blank = .ok start ∧
    run (TableCall.step checksumCrates) start [.addSlot otherMaster (ascii "bob") SlotDraws.blank] = some final ∧
    final.unsealWith checksumCrates (ascii "bob") = .ok (1, AegisKey.new32 otherMaster) ∧
    volumeVerifier checksumCrates otherMaster ≠ final.verifier := by
  have reached : (KeySlotTable.newInitial checksumCrates (U8Array.zeros 32) (ascii "alice")
      TableDraws.blank).toOption.any (fun start => (run (TableCall.step checksumCrates) start
        [.addSlot otherMaster (ascii "bob") SlotDraws.blank]).any fun final =>
          final.unsealWith checksumCrates (ascii "bob") = .ok (1, AegisKey.new32 otherMaster) ∧
          volumeVerifier checksumCrates otherMaster ≠ final.verifier) = true := by
    decide +kernel
  obtain ⟨start, made, passed⟩ := Outcome.ok_of_any reached
  obtain ⟨final, ran, opened⟩ := (Option.any_eq_true _ _).mp passed
  exact ⟨start, final, made, ran, of_decide_eq_true opened⟩

end SoteriaAegis.Vault
