import SoteriaAegis.Memory.VaultRuns
import SoteriaAegis.Memory.Keyring

/-! Where the protection ends. A slot that is opened gives its master back to the allocator, and
the temporary key of `unlock` takes the lock of its pages along. -/

namespace SoteriaAegis.Memory
open Rust Crypto Slots Vault

variable {platform : Platform} (crates : Crates)

namespace BoxedKey

end BoxedKey

variable {heap after : Heap platform}

theorem argon2idRoot_ok {passphrase salt : List UInt8} {memoryKib iterations : UInt32}
    {boxed : BoxedKey}
    (derived : argon2idRoot crates passphrase salt memoryKib iterations heap = (.ok boxed, after)) :
    ∃ out : U8Array MASTER_LEN, boxed = BoxedKey.next heap MASTER_LEN ∧
    after = BoxedKey.made out.val heap := by
  obtain ⟨params, _, rest⟩ := (Method.lift_bind_eq_ok_iff _ _ _ _ _).mp derived
  obtain ⟨out, _, made⟩ := (Method.lift_bind_eq_ok_iff _ _ _ _ _).mp rest
  rw [BoxedKey.new_eq, out.property] at made
  cases made
  exact ⟨out, rfl, rfl⟩

theorem locked_made {keys : List BoxedKey} (locked : (Keyring.mk heap keys).Locked)
    (material : List UInt8) :
    (Keyring.mk (BoxedKey.made material heap)
      (BoxedKey.next heap material.length :: keys)).Locked :=
  Keyring.locked_make locked (Keyring.make_eq material _)

theorem derive_locked {keys : List BoxedKey} {master tag : List UInt8} {boxed : BoxedKey}
    (locked : (Keyring.mk heap keys).Locked)
    (derived : derive crates master tag heap = (.ok boxed, after)) :
    (Keyring.mk after (boxed :: keys)).Locked := by
  obtain ⟨raw, _, made⟩ := (Method.lift_bind_eq_ok_iff _ _ _ _ _).mp derived
  rw [BoxedKey.new_eq] at made
  cases made
  exact locked_made locked raw.val

theorem fromMaster_locked {keys : List BoxedKey} {master : List UInt8} {boxed : BoxedHierarchy}
    (locked : (Keyring.mk heap keys).Locked)
    (derived : BoxedHierarchy.fromMaster crates master heap = (.ok boxed, after)) :
    (Keyring.mk after (boxed.kHandle :: boxed.kXts :: boxed.kShard :: boxed.kMeta :: boxed.kAuth ::
      boxed.kEnc :: keys)).Locked := by
  obtain ⟨kEnc, heap, enc, rest⟩ := Method.bind_eq_ok_iff.mp derived
  have locked := derive_locked crates locked enc
  obtain ⟨kAuth, heap, auth, rest⟩ := Method.bind_eq_ok_iff.mp (Method.onFailure_eq_ok_iff.mp rest)
  have locked := derive_locked crates locked auth
  obtain ⟨kMeta, heap, meta', rest⟩ := Method.bind_eq_ok_iff.mp (Method.onFailure_eq_ok_iff.mp rest)
  have locked := derive_locked crates locked meta'
  obtain ⟨kShard, heap, shard, rest⟩ :=
    Method.bind_eq_ok_iff.mp (Method.onFailure_eq_ok_iff.mp rest)
  have locked := derive_locked crates locked shard
  obtain ⟨kXts, heap, xts, rest⟩ := Method.bind_eq_ok_iff.mp (Method.onFailure_eq_ok_iff.mp rest)
  have locked := derive_locked crates locked xts
  obtain ⟨kHandle, heap, handle, rest⟩ :=
    Method.bind_eq_ok_iff.mp (Method.onFailure_eq_ok_iff.mp rest)
  have locked := derive_locked crates locked handle
  cases Method.onFailure_eq_ok_iff.mp rest
  exact locked

/-- While the temporary key of `unlock` is there, every key that counts as locked is held in memory. -/
theorem unlock_steps {passphrase salt : List UInt8} {memoryKib iterations : UInt32}
    {boxed : BoxedVault}
    (made : BoxedVault.unlock crates passphrase salt memoryKib iterations heap =
      (.ok boxed, after)) :
    ∃ full, after = (BoxedKey.next heap MASTER_LEN).drop full ∧
      ∀ key ∈ boxed.keys, key.locked = true → key.Pinned full := by
  obtain ⟨temporary, keyed, derived, rest⟩ := Method.bind_eq_ok_iff.mp made
  obtain ⟨out, rfl, rfl⟩ := argon2idRoot_ok crates derived
  obtain ⟨full, body, dropped⟩ := Method.ensuring_eq_ok_iff.mp rest
  obtain ⟨exposed, same, read, body⟩ := Method.bind_eq_ok_iff.mp body
  cases read
  obtain ⟨raw, _, body⟩ := (Method.lift_bind_eq_ok_iff _ _ _ _ _).mp body
  obtain ⟨master, mastered, made, body⟩ := Method.bind_eq_ok_iff.mp body
  rw [BoxedKey.new32, BoxedKey.new_eq] at made
  cases made
  have none : (Keyring.mk heap []).Locked :=
    fun key impossible => absurd impossible List.not_mem_nil
  have locked := locked_made (locked_made none out.val) raw.val
  obtain ⟨hierarchy, complete, derived, body⟩ :=
    Method.bind_eq_ok_iff.mp (Method.onFailure_eq_ok_iff.mp body)
  have locked := fromMaster_locked crates locked (Method.expect_eq_ok_iff.mp derived)
  cases body
  refine ⟨full, dropped.symm, ?_⟩
  intro key member
  -- The keys were made in the order of the fields, the latest being the first of the keyring.
  exact locked key (List.mem_append_left [BoxedKey.next heap out.val.length]
    (List.mem_reverse.mpr member))

/-- Behind `unlock`, a key of the vault that counts as locked is held in memory exactly when it
shares no page with the temporary key that held the derived master. -/
theorem unlock_locks_iff {passphrase salt : List UInt8} {memoryKib iterations : UInt32}
    {boxed : BoxedVault}
    (made : BoxedVault.unlock crates passphrase salt memoryKib iterations heap =
      (.ok boxed, after)) :
    ∀ key ∈ boxed.keys, key.locked = true → (key.Pinned after ↔
      ∀ page, key.data.touches platform.pageSize page = true →
        (BoxedKey.next heap MASTER_LEN).pins platform.pageSize page = false) := by
  obtain ⟨full, dropped, pinned⟩ := unlock_steps crates made
  intro key member counts
  have held := pinned key member counts
  constructor
  · intro still page touched
    have here := still page touched
    rw [dropped, BoxedKey.isLocked_drop, Bool.and_eq_true, Bool.not_eq_true'] at here
    exact here.2
  · intro clear page touched
    rw [dropped, BoxedKey.isLocked_drop, held page touched, clear page touched]
    rfl

/-- All seven keys of 32 bytes share the first page with the temporary one, and none is locked. -/
theorem unlock_locks_none : ∃ boxed after,
    BoxedVault.unlock checksumCrates (ascii "alice") (ascii "aegis-cli-salt-v1") 64 2 Heap.empty =
    (.ok boxed, after) ∧
      ∀ key ∈ boxed.keys, key.locked = true ∧ ¬key.Pinned after := by
  have returned : (BoxedVault.unlock checksumCrates (ascii "alice") (ascii "aegis-cli-salt-v1") 64 2
      Heap.empty).1.toOption.any (fun boxed => boxed.keys.all fun key =>
        key.locked && key.data.touches 4096 0) = true := by
    decide +kernel
  obtain ⟨boxed, answered, onPage⟩ := Outcome.ok_of_any returned
  have made : BoxedVault.unlock checksumCrates (ascii "alice") (ascii "aegis-cli-salt-v1") 64
    2 Heap.empty =
      (.ok boxed, _) := Method.eq_of_fst _ answered
  refine ⟨boxed, _, made, ?_⟩
  intro key member
  obtain ⟨counts, touched⟩ := Bool.and_eq_true_iff.mp (List.all_eq_true.mp onPage key member)
  refine ⟨counts, fun pinned => ?_⟩
  have clear := (unlock_locks_iff checksumCrates made key member counts).mp pinned 0 touched
  exact absurd clear (by decide)

end SoteriaAegis.Memory
