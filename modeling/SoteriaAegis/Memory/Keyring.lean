import SoteriaAegis.Memory.Boxes

/-! A program that makes protected keys and drops or burns them in any order. Its memory is
what the keys as values say, and the block of a key that is gone went back empty. Locks are by
pages, so that a key's lock also depends on the keys dropped beside it. -/

namespace SoteriaAegis.Memory
open Rust Crypto

structure Keyring (platform : Platform) where
  heap : Heap platform
  live : List BoxedKey

inductive KeyCall where
  | make (material : List UInt8)
  | drop (idx : Nat)
  | burn (idx : Nat)

def KeyCall.gone : KeyCall → Option Nat
  | make _ => none
  | drop idx => some idx
  | burn idx => some idx

variable {platform : Platform}

namespace Keyring

def make (material : List UInt8) (ring : Keyring platform) : Option (Keyring platform) :=
  match (BoxedKey.new material : Method (Heap platform) AegisError BoxedKey) ring.heap with
  | (.ok key, heap) => some ⟨heap, key :: ring.live⟩
  | _ => none

def release (use : BoxedKey → Heap platform → Heap platform) (idx : Nat) (ring : Keyring platform) :
    Keyring platform :=
  match ring.live[idx]? with
  | some key => ⟨use key ring.heap, ring.live.eraseIdx idx⟩
  | none => ring

def Locked (ring : Keyring platform) : Prop := ∀ key ∈ ring.live, key.locked = true →
    key.Pinned ring.heap

end Keyring

def KeyCall.step (ring : Keyring platform) : KeyCall → Option (Keyring platform)
  | make material => ring.make material
  | drop idx => some (ring.release BoxedKey.drop idx)
  | burn idx => some (ring.release BoxedKey.burn idx)

def KeyCall.values (keys : List AegisKey) : KeyCall → Option (List AegisKey)
  | make material => some (AegisKey.new material :: keys)
  | drop idx => some (keys.eraseIdx idx)
  | burn idx => some (keys.eraseIdx idx)

namespace Keyring

theorem make_eq (material : List UInt8) (ring : Keyring platform) : ring.make material =
    some ⟨BoxedKey.made material ring.heap, BoxedKey.next ring.heap material.length ::
      ring.live⟩ := by
  unfold make
  rw [BoxedKey.new_eq]

theorem step_returns (ring : Keyring platform) (call : KeyCall) :
    ∃ next, call.step ring = some next := by
  cases call with
  | make material => exact ⟨_, make_eq material ring⟩
  | drop idx => exact ⟨_, rfl⟩
  | burn idx => exact ⟨_, rfl⟩

theorem values_return (keys : List AegisKey) (call : KeyCall) :
    ∃ next, call.values keys = some next := by
  cases call with
  | make material => exact ⟨_, rfl⟩
  | drop idx => exact ⟨_, rfl⟩
  | burn idx => exact ⟨_, rfl⟩

/-- The live keys pair up with values, and the heap holds these next to the blocks of others. -/
def Mirrors (ledger : Heap.Ledger) (rest : List (Block × List UInt8))
    (ring : Keyring platform) (keys : List AegisKey) : Prop :=
  ∃ pairs : List (BoxedKey × AegisKey), ring.live = pairs.map Prod.fst ∧ keys = pairs.map Prod.snd ∧
    Heap.Holds ledger ring.heap (pairs.map (fun pair => pair.1.entry pair.2) ++ rest)

section
variable {ledger : Heap.Ledger} {rest : List (Block × List UInt8)} {ring : Keyring platform}
  {keys : List AegisKey}

theorem Mirrors.release (mirrors : ring.Mirrors ledger rest keys) (idx : Nat) :
    (ring.release BoxedKey.drop idx).Mirrors ledger rest (keys.eraseIdx idx) := by
  obtain ⟨pairs, live, values, holds⟩ := mirrors
  by_cases inside : idx < pairs.length
  · have found : ring.live[idx]? = some pairs[idx].1 := by
      rw [live, List.getElem?_map, List.getElem?_eq_getElem inside]
      rfl
    have apart := ((List.getElem_cons_eraseIdx_perm inside).symm.map
      fun pair : BoxedKey × AegisKey => pair.1.entry pair.2).append_right rest
    have dropped := BoxedKey.drop_holds (holds.perm apart)
    refine ⟨pairs.eraseIdx idx, ?_, ?_, ?_⟩
    · rw [Keyring.release, found, live, List.eraseIdx_map]
    · rw [values, List.eraseIdx_map]
    · rw [Keyring.release, found]
      exact dropped
  · have outside : ring.live[idx]? = none := by
      rw [live, List.getElem?_map, List.getElem?_eq_none (Nat.le_of_not_lt inside)]
      rfl
    have kept : keys.eraseIdx idx = keys :=
      List.eraseIdx_of_length_le (by rw [values, List.length_map]; exact Nat.le_of_not_lt inside)
    rw [Keyring.release, outside, kept]
    exact ⟨pairs, live, values, holds⟩

theorem release_burn (idx : Nat) (ring : Keyring platform) :
    ring.release BoxedKey.burn idx = ring.release BoxedKey.drop idx := by
  unfold release
  cases ring.live[idx]? with
  | none => rfl
  | some key => exact congrArg (fun heap => Keyring.mk heap _) (BoxedKey.burn_eq_drop key ring.heap)

theorem Mirrors.step (mirrors : ring.Mirrors ledger rest keys) (call : KeyCall) :
    Option.Rel (fun ring keys => ring.Mirrors ledger rest keys) (call.step ring)
      (call.values keys) := by
  cases call with
  | make material =>
    obtain ⟨pairs, live, values, holds⟩ := mirrors
    have made := BoxedKey.made_holds holds material
    rw [KeyCall.step, KeyCall.values, make_eq]
    exact .some ⟨(BoxedKey.next ring.heap material.length, AegisKey.new material) :: pairs,
      congrArg _ live, congrArg _ values, made⟩
  | drop idx => exact .some (mirrors.release idx)
  | burn idx =>
    rw [KeyCall.step, release_burn]
    exact .some (mirrors.release idx)

theorem Mirrors.expose (mirrors : ring.Mirrors ledger rest keys) :
    ring.live.map (BoxedKey.expose · ring.heap) = keys.map AegisKey.expose := by
  obtain ⟨pairs, live, values, holds⟩ := mirrors
  rw [live, values, List.map_map, List.map_map]
  apply List.map_congr_left
  intro pair member
  exact BoxedKey.expose_eq holds (List.mem_append_left _ (List.mem_map_of_mem member))

theorem Mirrors.taken (mirrors : ring.Mirrors ledger rest keys) :
    ring.heap.taken.Perm (ring.live.map BoxedKey.data ++ rest.map Prod.fst) := by
  obtain ⟨pairs, live, _, holds⟩ := mirrors
  refine holds.taken.trans (List.Perm.of_eq ?_)
  rw [List.map_append, live, List.map_map, List.map_map]
  rfl

theorem Mirrors.ctEq (mirrors : ring.Mirrors ledger rest keys) {i j : Nat} {one two : BoxedKey}
    {key key' : AegisKey} (at_i : ring.live[i]? = some one) (at_j : ring.live[j]? = some two)
    (value : keys[i]? = some key)
    (value' : keys[j]? = some key') : one.ctEq two ring.heap = key.ctEq key' := by
  obtain ⟨pairs, live, values, holds⟩ := mirrors
  have entry : ∀ {n : Nat} {boxed : BoxedKey} {found : AegisKey}, ring.live[n]? = some boxed →
    keys[n]? = some found →
      boxed.entry found ∈ pairs.map (fun pair => pair.1.entry pair.2) ++ rest := by
    intro n boxed found boxedAt valueAt
    rw [live, List.getElem?_map] at boxedAt
    rw [values, List.getElem?_map] at valueAt
    obtain ⟨pair, at_n, rfl⟩ := Option.map_eq_some_iff.mp boxedAt
    rw [at_n] at valueAt
    cases valueAt
    exact List.mem_append_left _ (List.mem_map_of_mem (List.mem_of_getElem? at_n))
  exact BoxedKey.ctEq_eq holds (entry at_i value) (entry at_j value')

end

/-- Whatever is made, dropped and burned, the live keys expose and compare as the values do,
the blocks of others are untouched, and the blocks given back held zeros. -/
theorem keyring_faithful (heap : Heap platform) (calls : List KeyCall) : ∃ ring keys,
    run KeyCall.step ⟨heap, []⟩ calls = some ring ∧ run KeyCall.values [] calls = some keys ∧
    ring.live.map (BoxedKey.expose · ring.heap) = keys.map AegisKey.expose ∧
    (∀ (i j : Nat) (one two : BoxedKey) (key key' : AegisKey), ring.live[i]? = some one →
      ring.live[j]? = some two → keys[i]? = some key →
      keys[j]? = some key' → one.ctEq two ring.heap = key.ctEq key') ∧
    ring.heap.taken.Perm (ring.live.map BoxedKey.data ++ heap.taken) ∧
    (∀ block ∈ heap.taken, load ring.heap.cells block = load heap.cells block) ∧
    Wiped heap ring.heap := by
  have initial : (Keyring.mk heap []).Mirrors _ heap.blocks [] :=
    ⟨[], rfl, rfl, Heap.Holds.start heap fun _ => False⟩
  have related := run_refines calls (fun call _ _ _ mirrors => Mirrors.step mirrors call) initial
  obtain ⟨keys, ranValues⟩ := run_total values_return [] calls
  obtain ⟨ring, ran⟩ := run_total step_returns (Keyring.mk heap []) calls
  rw [ran, ranValues] at related
  cases related with
  | some mirrors =>
    refine ⟨ring, keys, ran, ranValues, mirrors.expose, fun _ _ _ _ _ _ => mirrors.ctEq, ?_, ?_, ?_⟩
    · have taken := mirrors.taken
      rw [heap.blocks_fst] at taken
      exact taken
    · intro block member
      obtain ⟨pairs, _, _, holds⟩ := mirrors
      exact holds.load_eq (List.mem_append_right _ (List.mem_map_of_mem member))
    · obtain ⟨pairs, _, _, holds⟩ := mirrors
      exact wiped_of_admits holds.returned

/-- Letting the key go unlocks a page under another key that counts as locked. -/
def Unlocks (ring : Keyring platform) (idx : Nat) : Prop :=
  ∃ key other page, ring.live[idx]? = some key ∧ other ∈ ring.live.eraseIdx idx ∧
    key.pins platform.pageSize page = true ∧ other.pins platform.pageSize page = true

theorem step_of_gone {call : KeyCall} {idx : Nat} (gone : call.gone = some idx)
    (ring : Keyring platform) :
    call.step ring = some (ring.release BoxedKey.drop idx) := by
  cases call with
  | make material => cases gone
  | drop at_idx =>
    cases gone
    rfl
  | burn at_idx =>
    cases gone
    exact congrArg some (release_burn _ ring)

theorem locked_make {ring next : Keyring platform} (locked : ring.Locked) {material : List UInt8}
    (made : ring.make material = some next) : next.Locked := by
  rw [make_eq] at made
  cases made
  intro key member counts page touched
  rw [BoxedKey.isLocked_made, Bool.or_eq_true]
  cases member with
  | head => exact Or.inr (Bool.and_eq_true_iff.mpr ⟨counts, touched⟩)
  | tail _ member => exact Or.inl (locked key member counts page touched)

theorem locked_release_iff {ring : Keyring platform} (locked : ring.Locked) (idx : Nat) :
    (ring.release BoxedKey.drop idx).Locked ↔ ¬ring.Unlocks idx := by
  unfold release Unlocks
  cases found : ring.live[idx]? with
  | none =>
    refine iff_of_true locked ?_
    intro ⟨_, _, _, impossible, _⟩
    cases impossible
  | some key =>
    constructor
    · intro held ⟨_, other, page, same, member, gone, pinned⟩
      cases same
      obtain ⟨counts, touched⟩ := Bool.and_eq_true_iff.mp pinned
      have still := held other member counts page touched
      rw [BoxedKey.isLocked_drop, gone, Bool.not_true, Bool.and_false] at still
      cases still
    · intro clear other member counts page touched
      have before := locked other (List.mem_of_mem_eraseIdx member) counts page touched
      rw [BoxedKey.isLocked_drop, before, Bool.true_and, Bool.not_eq_true']
      apply Bool.eq_false_iff.mpr
      intro gone
      exact clear ⟨key, other, page, rfl, member, gone, Bool.and_eq_true_iff.mpr ⟨counts, touched⟩⟩

/-- The keys that count as locked are held in memory all along a run exactly when no key is
let go while another one that counts as locked lies on one of its pages. -/
theorem locks_hold_iff (heap : Heap platform) (calls : List KeyCall) :
    (∀ ring, Visits KeyCall.step ⟨heap, []⟩ calls ring → ring.Locked) ↔
      ∀ ring call idx, Takes KeyCall.step ⟨heap, []⟩ calls ring call → call.gone = some idx →
      ¬ring.Unlocks idx := by
  constructor
  · intro held ring call idx taken gone
    have before := held ring taken.visits
    have after := held _ (taken.next (step_of_gone gone ring))
    exact (locked_release_iff before idx).mp after
  · intro clear ring visited
    refine visits_induction Locked ?_ ?_ visited
    · intro key member
      cases member
    · intro ring call next taken locked stepped
      cases going : call.gone with
      | none =>
        cases call with
        | make material => exact locked_make locked stepped
        | drop idx => cases going
        | burn idx => cases going
      | some idx =>
        rw [step_of_gone going] at stepped
        cases stepped
        exact (locked_release_iff locked idx).mpr (clear ring call idx taken going)

/-- Core dumps leave a page out on account of keys only where one of them starts on a page
boundary: along a run without such a key on it, the page is dumped as it was before. -/
theorem dumps_unchanged (heap : Heap platform) (calls : List KeyCall) (page : Nat)
    (unheard : ∀ ring, Visits KeyCall.step ⟨heap, []⟩ calls ring →
      ∀ key ∈ ring.live, ¬Advised platform key.data page)
    (ring : Keyring platform) (visited : Visits KeyCall.step ⟨heap, []⟩ calls ring) :
    platform.isDumped ring.heap.pages page = platform.isDumped heap.pages page := by
  refine visits_induction (fun ring => platform.isDumped ring.heap.pages page =
    platform.isDumped heap.pages page)
    rfl ?_ visited
  intro ring call next taken same stepped
  have behind := unheard next (taken.next stepped)
  cases going : call.gone with
  | none =>
    cases call with
    | make material =>
      rw [KeyCall.step, make_eq] at stepped
      cases stepped
      exact (BoxedKey.isDumped_made (behind _ List.mem_cons_self)).trans same
    | drop idx => cases going
    | burn idx => cases going
  | some idx =>
    rw [step_of_gone going, release] at stepped
    cases found : ring.live[idx]? with
    | none =>
      rw [found] at stepped
      cases stepped
      exact same
    | some key =>
      rw [found] at stepped
      cases stepped
      exact (BoxedKey.isDumped_drop (unheard ring taken.visits key (List.mem_of_getElem? found))
        _).trans same

theorem dumps_unchanged_small : ∃ ring, run KeyCall.step ⟨Heap.empty, []⟩
      [.make (List.replicate 32 1), .make (List.replicate 32 2), .burn 0] = some ring ∧
    bumpPlatform.isDumped ring.heap.pages 0 = true := by
  let calls : List KeyCall := [.make (List.replicate 32 1), .make (List.replicate 32 2), .burn 0]
  have inside : calls.inits.all
    (fun before => (run KeyCall.step (⟨Heap.empty, []⟩ : Keyring bumpPlatform) before).all
      fun ring => ring.live.all fun key => key.data.base % 4096 != 0) = true := by
    decide +kernel
  obtain ⟨ring, ran⟩ : ∃ ring,
    run KeyCall.step (⟨Heap.empty, []⟩ : Keyring bumpPlatform) calls = some ring := ⟨_, rfl⟩
  refine ⟨ring, ran, dumps_unchanged Heap.empty calls 0 ?_ ring (Visits.last ran)⟩
  intro ring visited key member ⟨aligned, _⟩
  have unaligned := List.all_eq_true.mp (visited.passes inside) key member
  rw [bne_iff_ne] at unaligned
  exact unaligned aligned

/-- Two keys of 32 bytes lie on one page. When the older one is dropped, the other is no
longer locked. -/
example : ∃ ring, run KeyCall.step ⟨Heap.empty, []⟩
    [.make (List.replicate 32 1), .make (List.replicate 32 2), .drop 1] = some ring ∧
    (ring.live.map fun key => (key.locked, bumpPlatform.isLocked ring.heap.pages 0)) =
    [(true, false)] :=
  ⟨_, rfl, by decide +kernel⟩

end Keyring
end SoteriaAegis.Memory
