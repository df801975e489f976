import SoteriaAegis.Rust.Refinement
import Mathlib.Data.List.GetD
import Mathlib.Data.List.Perm.Basic

/-! The memory of a process: bytes at addresses, blocks that an allocator hands out and takes
back, and pages that the kernel locks or leaves out of core dumps. -/

namespace SoteriaAegis.Rust

structure Block where
  base : Nat
  size : Nat
  deriving DecidableEq, Repr

namespace Block

def Covers (block : Block) (address : Nat) : Prop :=
  block.base ≤ address ∧ address < block.base + block.size

instance (block : Block) (address : Nat) : Decidable (block.Covers address) :=
  inferInstanceAs (Decidable (_ ∧ _))

def Apart (first second : Block) : Prop := ∀ address, first.Covers address → ¬second.Covers address

theorem Apart.symm {first second : Block} (apart : Apart first second) : Apart second first :=
  fun address inSecond inFirst => apart address inFirst inSecond

/-- The pages that a system call on the block works on: it rounds to whole pages. -/
def touches (pageSize : Nat) (block : Block) (page : Nat) : Bool :=
  page * pageSize < block.base + block.size && block.base < (page + 1) * pageSize

end Block

inductive Advice where
  | dontDump
  | doDump
  deriving DecidableEq

/-- The allocator and the kernel, with what their manuals promise. Blocks handed out do not
overlap those in use, and the allocator may write anywhere else; locks are set and released by
whole pages and do not nest; a call that is refused changes nothing, and advice for an address
inside a page is refused. -/
structure Platform where
  pageSize : Nat
  alloc : (turn : Nat) → (taken : List Block) → (size : Nat) → Nat
  /-- What the allocator makes of the memory while it hands out a block or takes one back. -/
  settle : (turn : Nat) → (taken : List Block) → (cells : Nat → UInt8) → Nat → UInt8
  Pages : Type
  mlock : Pages → Block → Bool × Pages
  munlock : Pages → Block → Pages
  madvise : Pages → Block → Advice → Pages
  isLocked : Pages → Nat → Bool
  isDumped : Pages → Nat → Bool
  alloc_apart : ∀ turn taken size, ∀ block ∈ taken, Block.Apart ⟨alloc turn taken size, size⟩ block
  settle_used : ∀ turn taken cells, ∀ block ∈ taken, ∀ address, block.Covers address →
    settle turn taken cells address = cells address
  isLocked_mlock : ∀ pages block page, isLocked (mlock pages block).2 page =
    (isLocked pages page || (mlock pages block).1 && block.touches pageSize page)
  isLocked_munlock : ∀ pages block page,
    isLocked (munlock pages block) page = (isLocked pages page && !block.touches pageSize page)
  isLocked_madvise : ∀ pages block advice page,
    isLocked (madvise pages block advice) page = isLocked pages page
  isDumped_mlock : ∀ pages block page, isDumped (mlock pages block).2 page = isDumped pages page
  isDumped_munlock : ∀ pages block page, isDumped (munlock pages block) page = isDumped pages page
  isDumped_madvise : ∀ pages block advice page, block.base % pageSize ≠ 0 ∨
    block.touches pageSize page = false →
    isDumped (madvise pages block advice) page = isDumped pages page

def bump (taken : List Block) : Nat :=
  taken.foldr (fun block above => max (block.base + block.size) above) 16

theorem le_bump {taken : List Block} {block : Block} (member : block ∈ taken) :
    block.base + block.size ≤ bump taken := by
  induction taken with
  | nil => cases member
  | cons first rest ih =>
    change _ ≤ max (first.base + first.size) (bump rest)
    cases member with
    | head => exact Nat.le_max_left _ _
    | tail _ member => exact Nat.le_trans (ih member) (Nat.le_max_right _ _)

/-- A platform that can be evaluated: blocks are placed behind the last one in use, all other
memory is overwritten at every turn, and the kernel grants every lock. -/
def bumpPlatform : Platform where
  pageSize := 4096
  alloc _ taken _ := bump taken
  settle _ taken cells address :=
    if taken.any fun block => decide (block.Covers address) then cells address else 255
  Pages := (Nat → Bool) × (Nat → Bool)
  mlock pages block := (true, fun page => pages.1 page || block.touches 4096 page, pages.2)
  munlock pages block := (fun page => pages.1 page && !block.touches 4096 page, pages.2)
  madvise pages block advice := (pages.1, fun page =>
    if block.base % 4096 = 0 ∧ block.touches 4096 page = true then advice = .doDump
      else pages.2 page)
  isLocked pages page := pages.1 page
  isDumped pages page := pages.2 page
  alloc_apart _ taken size block member address mine theirs :=
    absurd (Nat.lt_of_lt_of_le theirs.2 (Nat.le_trans (le_bump member) mine.1)) (Nat.lt_irrefl _)
  settle_used _ _ _ block member address covers :=
    if_pos (List.any_eq_true.mpr ⟨block, member, decide_eq_true covers⟩)
  isLocked_mlock _ _ _ := by simp
  isLocked_munlock _ _ _ := rfl
  isLocked_madvise _ _ _ _ := rfl
  isDumped_mlock _ _ _ := rfl
  isDumped_munlock _ _ _ := rfl
  isDumped_madvise pages block advice page inside := by
    apply if_neg
    intro ⟨aligned, touched⟩
    rcases inside with unaligned | untouched
    · exact unaligned aligned
    · rw [touched] at untouched
      cases untouched

def load (cells : Nat → UInt8) (block : Block) : List UInt8 :=
  (List.range block.size).map fun offset => cells (block.base + offset)

def store (cells : Nat → UInt8) (block : Block) (bytes : List UInt8) : Nat → UInt8 := fun address =>
  if block.Covers address then bytes.getD (address - block.base) 0 else cells address

@[simp] theorem load_length (cells : Nat → UInt8) (block : Block) :
    (load cells block).length = block.size := by
  simp [load]

theorem load_store (cells : Nat → UInt8) {block : Block} {bytes : List UInt8}
    (fits : bytes.length = block.size) :
    load (store cells block bytes) block = bytes := by
  apply List.ext_getElem
  · rw [load_length, fits]
  · intro offset inside _
    rw [load_length] at inside
    have covered : block.Covers (block.base + offset) := ⟨Nat.le_add_right _ _, by omega⟩
    have index : block.base + offset - block.base = offset := Nat.add_sub_cancel_left _ _
    simp only [load, List.getElem_map, List.getElem_range, store, if_pos covered, index]
    exact List.getD_eq_getElem _ _ (fits ▸ inside)

theorem load_congr {cells cells' : Nat → UInt8} {block : Block}
    (same : ∀ address, block.Covers address → cells' address = cells address) :
    load cells' block = load cells block := by
  apply List.map_congr_left
  intro offset inside
  have inside := List.mem_range.mp inside
  exact same _ ⟨Nat.le_add_right _ _, by omega⟩

theorem store_of_not_covers (cells : Nat → UInt8) {block : Block} {address : Nat}
    (outside : ¬block.Covers address)
    (bytes : List UInt8) : store cells block bytes address = cells address := if_neg outside

theorem load_store_apart (cells : Nat → UInt8) {block other : Block}
    (apart : Block.Apart block other)
    (bytes : List UInt8) : load (store cells block bytes) other = load cells other :=
  load_congr fun address inside =>
    store_of_not_covers cells (fun covered => apart address covered inside) bytes

/-- The blocks in use share no byte. Those given back so far are noted with what they held then,
the latest first. -/
structure Heap (platform : Platform) where
  cells : Nat → UInt8
  taken : List Block
  apart : taken.Pairwise Block.Apart
  freed : List (Block × List UInt8)
  turn : Nat
  pages : platform.Pages

namespace Heap
variable {platform : Platform} {ε : Type}

def empty : Heap bumpPlatform := ⟨fun _ => 0, [], .nil, [], 0, (fun _ => false, fun _ => true)⟩

def blocks (heap : Heap platform) : List (Block × List UInt8) :=
  heap.taken.map fun block => (block, load heap.cells block)

theorem blocks_fst (heap : Heap platform) : heap.blocks.map Prod.fst = heap.taken := by
  rw [blocks, List.map_map]
  exact List.map_id _

def fresh (size : Nat) (heap : Heap platform) : Block :=
  ⟨platform.alloc heap.turn heap.taken size, size⟩

theorem fresh_apart (heap : Heap platform) (size : Nat) :
    ∀ block ∈ heap.taken, Block.Apart (heap.fresh size) block :=
  platform.alloc_apart heap.turn heap.taken size

def alloc (size : Nat) : Method (Heap platform) ε Block := fun heap =>
  (.ok (heap.fresh size), { heap with
    cells := platform.settle heap.turn (heap.fresh size :: heap.taken)
      (store heap.cells (heap.fresh size) (List.replicate size 0))
    taken := heap.fresh size :: heap.taken
    apart := List.pairwise_cons.mpr ⟨heap.fresh_apart size, heap.apart⟩
    turn := heap.turn + 1 })

def write (block : Block) (bytes : List UInt8) (heap : Heap platform) : Heap platform :=
  { heap with cells := store heap.cells block bytes }

/-- `copy_from_slice` into a block, which panics on another length. -/
def copyFromSlice (block : Block) (bytes : List UInt8) :
    Method (Heap platform) ε Unit := fun heap =>
  if bytes.length = block.size then (.ok (), heap.write block bytes) else (.panic, heap)

theorem alloc_eq (size : Nat) (heap : Heap platform) :
    (alloc size : Method (Heap platform) ε Block) heap =
    (.ok (heap.fresh size), ((alloc size : Method (Heap platform) ε Block) heap).2) := rfl

theorem copyFromSlice_eq (heap : Heap platform) {block : Block} {bytes : List UInt8}
    (fits : bytes.length = block.size) :
    (copyFromSlice block bytes : Method (Heap platform) ε Unit) heap =
    (.ok (), heap.write block bytes) := if_pos fits

def vec (bytes : List UInt8) : Method (Heap platform) ε Block := do
  let block ← alloc bytes.length
  copyFromSlice block bytes
  return block

theorem vec_eq (bytes : List UInt8) (heap : Heap platform) :
    (vec bytes : Method (Heap platform) ε Block) heap = (.ok (heap.fresh bytes.length),
      ((alloc bytes.length : Method (Heap platform) ε Block) heap).2.write
        (heap.fresh bytes.length) bytes) := by
  rw [vec, Method.bind_of_ok _ _ (alloc_eq _ heap), Method.bind_of_ok _ _ (copyFromSlice_eq _ rfl)]
  rfl

def read (block : Block) : Method (Heap platform) ε (List UInt8) :=
  fun heap => (.ok (load heap.cells block), heap)

def free (block : Block) (heap : Heap platform) : Heap platform :=
  { heap with
    cells := platform.settle heap.turn (heap.taken.erase block) heap.cells
    taken := heap.taken.erase block
    apart := heap.apart.sublist List.erase_sublist
    freed := (block, load heap.cells block) :: heap.freed
    turn := heap.turn + 1 }

theorem load_settle {taken : List Block} {block : Block} (used : block ∈ taken) (turn : Nat)
    (cells : Nat → UInt8) : load (platform.settle turn taken cells) block = load cells block :=
  load_congr (platform.settle_used turn taken cells block used)

theorem write_write (block : Block) (bytes : List UInt8) (heap : Heap platform) :
    (heap.write block bytes).write block bytes = heap.write block bytes := by
  have same : store (store heap.cells block bytes) block bytes = store heap.cells block bytes := by
    funext address
    by_cases inside : block.Covers address
    · exact (if_pos inside).trans (if_pos inside).symm
    · exact if_neg inside
  unfold write
  rw [same]

def setPages (pages : platform.Pages) (heap : Heap platform) : Heap platform :=
  { heap with pages := pages }

/-- What had been given back before, and what a block may hold, other than zeros, when it is
given back from then on. -/
structure Ledger where
  before : List (Block × List UInt8)
  allowed : List UInt8 → Prop

def Ledger.Admits (ledger : Ledger) (freed : List (Block × List UInt8)) : Prop :=
  ∃ gone, freed = gone ++ ledger.before ∧
    ∀ entry ∈ gone, (∀ byte ∈ entry.2, byte = 0) ∨ ledger.allowed entry.2

/-- The blocks in use are those listed, with these contents, and nothing has been given back that
the ledger does not admit. -/
structure Holds (ledger : Ledger) (heap : Heap platform) (contents : List (Block × List UInt8)) :
    Prop where
  taken : heap.taken.Perm (contents.map Prod.fst)
  stored : ∀ entry ∈ contents, load heap.cells entry.1 = entry.2
  returned : ledger.Admits heap.freed

namespace Holds
variable {ledger : Ledger} {heap : Heap platform} {contents others : List (Block × List UInt8)}
  {block : Block} {bytes : List UInt8}

theorem start (heap : Heap platform) (allowed : List UInt8 → Prop) :
    Holds ⟨heap.freed, allowed⟩ heap heap.blocks where
  taken := List.Perm.of_eq heap.blocks_fst.symm
  stored := by
    intro entry member
    obtain ⟨block, _, same⟩ := List.mem_map.mp member
    rw [← same]
  returned := ⟨[], rfl, fun _ impossible => absurd impossible List.not_mem_nil⟩

theorem apart (holds : Holds ledger heap contents) :
    (contents.map Prod.fst).Pairwise Block.Apart :=
  (holds.taken.pairwise_iff Block.Apart.symm).mp heap.apart

theorem used (holds : Holds ledger heap contents) {entry : Block × List UInt8}
    (member : entry ∈ contents) : entry.1 ∈ heap.taken :=
  holds.taken.mem_iff.mpr (List.mem_map_of_mem member)

theorem perm (holds : Holds ledger heap contents) (same : contents.Perm others) :
    Holds ledger heap others where
  taken := holds.taken.trans (same.map _)
  stored := fun entry member => holds.stored entry (same.mem_iff.mpr member)
  returned := holds.returned

theorem weaken (holds : Holds ledger heap contents) {allowed : List UInt8 → Prop}
    (allows : ∀ bytes, ledger.allowed bytes → allowed bytes) :
    Holds ⟨ledger.before, allowed⟩ heap contents where
  taken := holds.taken
  stored := holds.stored
  returned := by
    obtain ⟨gone, log, fine⟩ := holds.returned
    exact ⟨gone, log, fun entry member => (fine entry member).imp_right (allows _)⟩

theorem setPages (holds : Holds ledger heap contents) (pages : platform.Pages) :
    Holds ledger (heap.setPages pages) contents := ⟨holds.taken, holds.stored, holds.returned⟩

theorem alloc (holds : Holds ledger heap contents) (size : Nat) :
    Holds ledger ((Heap.alloc size : Method (Heap platform) ε Block) heap).2
      ((heap.fresh size, List.replicate size 0) :: contents) where
  taken := holds.taken.cons _
  stored := by
    intro entry member
    cases member with
    | head =>
      exact (load_settle List.mem_cons_self _ _).trans (load_store _ (List.length_replicate ..))
    | tail _ member =>
      have inUse := holds.used member
      rw [← holds.stored entry member]
      exact (load_settle (List.mem_cons_of_mem _ inUse) _ _).trans
        (load_store_apart _ (fresh_apart heap size _ inUse) _)
  returned := holds.returned

theorem write (holds : Holds ledger heap ((block, bytes) :: contents)) {new : List UInt8}
    (fits : new.length = block.size) : Holds ledger (heap.write block new)
      ((block, new) :: contents) where
  taken := holds.taken
  stored := by
    intro entry member
    cases member with
    | head => exact load_store _ fits
    | tail _ member =>
      rw [← holds.stored entry (List.mem_cons_of_mem _ member)]
      exact load_store_apart _ ((List.pairwise_cons.mp holds.apart).1
        _ (List.mem_map_of_mem member)) _
  returned := holds.returned

theorem free (holds : Holds ledger heap ((block, bytes) :: contents))
    (fine : (∀ byte ∈ bytes, byte = 0) ∨ ledger.allowed bytes) :
    Holds ledger (heap.free block) contents := by
  have others : (heap.free block).taken.Perm (contents.map Prod.fst) :=
    ((List.perm_cons_erase (holds.used List.mem_cons_self)).symm.trans holds.taken).cons_inv
  refine ⟨others, ?_, ?_⟩
  · intro entry member
    have kept := others.mem_iff.mpr (List.mem_map_of_mem member)
    exact (load_settle kept _ _).trans (holds.stored entry (List.mem_cons_of_mem _ member))
  · obtain ⟨gone, log, older⟩ := holds.returned
    have held : load heap.cells block = bytes := holds.stored _ List.mem_cons_self
    refine ⟨(block, bytes) :: gone, ?_, ?_⟩
    · change (block, load heap.cells block) :: heap.freed = _
      rw [held, log]
      rfl
    · intro entry member
      cases member with
      | head => exact fine
      | tail _ member => exact older entry member

variable (ε) in
theorem vec (holds : Holds ledger heap contents) (bytes : List UInt8) :
    Holds ledger ((Heap.vec bytes : Method (Heap platform) ε Block) heap).2
      ((heap.fresh bytes.length, bytes) :: contents) := by
  rw [vec_eq]
  exact (holds.alloc bytes.length).write rfl

theorem load_eq (holds : Holds ledger heap contents) (member : (block, bytes) ∈ contents) :
    load heap.cells block = bytes := holds.stored _ member

theorem size_eq (holds : Holds ledger heap contents) (member : (block, bytes) ∈ contents) :
    bytes.length = block.size := by rw [← holds.load_eq member, load_length]

end Holds

variable {α β γ δ : Type}

/-- On every heap that holds the blocks borrowed, the call ends as `value` does. It leaves the
heap as it was, but for the blocks that what it returned has come with. -/
def Computes (ledger : Ledger) (borrowed : List (Block × List UInt8))
    (call : Method (Heap platform) ε α)
    (value : Outcome ε β) (rep : α → β → List (Block × List UInt8) → Prop) : Prop :=
  ∀ rest, borrowed ⊆ rest → call.Refines (Method.lift value : Method Unit ε β)
    (fun heap _ => Holds ledger heap rest)
    (fun one other heap _ => ∃ mine, rep one other mine ∧ Holds ledger heap (mine ++ rest))
    (fun heap _ => Holds ledger heap rest)

def Plain (one other : α) (mine : List (Block × List UInt8)) : Prop := one = other ∧ mine = []

namespace Computes
variable {ledger : Ledger} {borrowed : List (Block × List UInt8)}
  {call : Method (Heap platform) ε α}
  {value : Outcome ε β} {rep : α → β → List (Block × List UInt8) → Prop}

theorem mono {more : List (Block × List UInt8)}
    (computes : Computes ledger borrowed call value rep)
    (included : borrowed ⊆ more) : Computes ledger more call value rep :=
  fun rest held => computes rest (List.Subset.trans included held)

theorem lift (value : Outcome ε α) :
    Computes ledger borrowed (Method.lift value : Method (Heap platform) ε α) value Plain := by
  intro rest _ heap _ holds
  cases value with
  | ok found => exact .ok ⟨[], ⟨rfl, rfl⟩, holds⟩
  | err error => exact .err holds
  | panic => exact .panic holds

theorem pure {one : α} {other : β} (related : rep one other []) :
    Computes ledger borrowed (Pure.pure one : Method (Heap platform) ε α) (.ok other) rep := by
  intro rest _ heap _ holds
  exact .ok ⟨[], related, holds⟩

theorem fail (error : ε) :
    Computes ledger borrowed (Method.fail error : Method (Heap platform) ε α)
      (.err error) rep := by
  intro rest _ heap _ holds
  exact .err holds

theorem lift_bind {first : Outcome ε γ} {next : γ → Method (Heap platform) ε α}
    {next' : γ → Outcome ε β} (others : ∀ found, first = .ok found →
      Computes ledger borrowed (next found) (next' found) rep) :
    Computes ledger borrowed (Method.lift first >>= next) (first >>= next') rep := by
  intro rest held
  rw [Method.lift_bind]
  exact Method.Refines.lift_bind (fun _ _ holds => holds) fun found same =>
    others found same rest held

theorem returns (computes : Computes ledger borrowed call value rep)
    {rest : List (Block × List UInt8)}
    (held : borrowed ⊆ rest) : call.Refines (Method.lift value : Method Unit ε β)
    (fun heap _ => Holds ledger heap rest)
      (fun one other heap _ => value = .ok other ∧ ∃ mine, rep one other mine ∧
        Holds ledger heap (mine ++ rest))
      (fun heap _ => Holds ledger heap rest) := by
  intro heap image holds
  have ended := computes rest held heap image holds
  rw [Method.lift_apply] at ended ⊢
  generalize call heap = one at ended
  cases ended with
  | ok after => exact .ok ⟨rfl, after⟩
  | err after => exact .err after
  | panic after => exact .panic after

theorem bind {mid : γ → δ → List (Block × List UInt8) → Prop} {first : Method (Heap platform) ε γ}
    {first' : Outcome ε δ} {next : γ → Method (Heap platform) ε α} {next' : δ → Outcome ε β}
    (computes : Computes ledger borrowed first first' mid)
    (others : ∀ one other mine rest, first' = .ok other → mid one other mine → borrowed ⊆ rest →
      (next one).Refines (Method.lift (next' other) : Method Unit ε β)
      (fun heap _ => Holds ledger heap (mine ++ rest))
        (fun one other heap _ => ∃ mine, rep one other mine ∧ Holds ledger heap (mine ++ rest))
        (fun heap _ => Holds ledger heap rest)) :
    Computes ledger borrowed (first >>= next) (first' >>= next') rep := by
  intro rest held
  rw [Method.lift_bind]
  apply (computes.returns held).bind _
  intro one other heap image between
  obtain ⟨same, mine, related, holds⟩ := between
  exact others one other mine rest same related held heap image holds

theorem bind_plain {first : Method (Heap platform) ε γ} {first' : Outcome ε γ}
    {next : γ → Method (Heap platform) ε α}
    {next' : γ → Outcome ε β} (computes : Computes ledger borrowed first first' Plain)
    (others : ∀ found, first' = .ok found →
      Computes ledger borrowed (next found) (next' found) rep) :
    Computes ledger borrowed (first >>= next) (first' >>= next') rep := by
  apply computes.bind
  intro one other mine rest same plain held
  obtain ⟨rfl, rfl⟩ := plain
  exact others one same rest held

section
variable {entry : γ → δ → Block × List UInt8} {cleanup : γ → Heap platform → Heap platform}
  {first : Method (Heap platform) ε γ} {first' : Outcome ε δ}
  {next : γ → Method (Heap platform) ε α}
  {next' : δ → Outcome ε β}

/-- A local variable that lives in a block until the scope is left. -/
theorem inScope
    (computes : Computes ledger borrowed first first'
      fun one other mine => mine = [entry one other])
    (cleans : ∀ one other, first' = .ok other →
      ∀ heap contents, Holds ledger heap (entry one other :: contents) →
      Holds ledger (cleanup one heap) contents)
    (others : ∀ one other, first' = .ok other →
      Computes ledger (entry one other :: borrowed) (next one) (next' other) rep) :
    Computes ledger borrowed (first >>= fun one => (next one).ensuring (cleanup one))
    (first' >>= next') rep := by
  apply computes.bind
  intro one other mine rest same owned held
  subst owned
  have inner := others one other same (entry one other :: rest) (List.cons_subset_cons _ held)
  refine inner.ensuring ?_ fun heap _ holds => cleans one other same heap rest holds
  intro found found' heap _ ⟨mine, related, holds⟩
  exact ⟨mine, related, cleans one other same heap _ (holds.perm List.perm_middle)⟩

/-- A block that becomes part of what is returned, and is cleaned up on a failure. -/
theorem guarded
    (computes : Computes ledger borrowed first first'
      fun one other mine => mine = [entry one other])
    (cleans : ∀ one other heap contents, Holds ledger heap (entry one other :: contents) →
      Holds ledger (cleanup one heap) contents)
    (others : ∀ one other, first' = .ok other →
      Computes ledger (entry one other :: borrowed) (next one) (next' other)
      fun found found' mine => rep found found' (entry one other :: mine)) :
    Computes ledger borrowed (first >>= fun one => (next one).onFailure (cleanup one))
    (first' >>= next') rep := by
  apply computes.bind
  intro one other mine rest same owned held
  subst owned
  have inner := others one other same (entry one other :: rest) (List.cons_subset_cons _ held)
  refine (inner.imp (fun _ _ holds => holds) ?_ fun _ _ holds => holds).onFailure
    fun heap _ holds => cleans one other heap rest holds
  intro found found' heap _ ⟨mine, related, holds⟩
  exact ⟨_, related, holds.perm List.perm_middle⟩

end

theorem vec (bytes : List UInt8) :
    Computes ledger borrowed (Heap.vec bytes : Method (Heap platform) ε Block)
    (.ok bytes) fun block bytes mine => mine = [(block, bytes)] := by
  intro rest _ heap _ holds
  have kept := holds.vec ε bytes
  rw [vec_eq] at kept ⊢
  exact .ok ⟨_, rfl, kept⟩

theorem read_bind {block : Block} {bytes : List UInt8}
    {next : List UInt8 → Method (Heap platform) ε α}
    (live : (block, bytes) ∈ borrowed) (others : Computes ledger borrowed (next bytes) value rep) :
    Computes ledger borrowed (Heap.read block >>= next) value rep := by
  intro rest held heap image holds
  have found : (Heap.read block : Method (Heap platform) ε (List UInt8)) heap = (.ok bytes, heap) :=
    Prod.ext (congrArg Outcome.ok (holds.load_eq (held live))) rfl
  rw [Method.bind_of_ok _ _ found]
  exact others rest held heap image holds

theorem expect {δ : Type} (computes : Computes ledger borrowed call value rep) :
    Computes ledger borrowed (Method.expect call : Method (Heap platform) δ α)
      (Outcome.expect value) rep := by
  intro rest held heap image holds
  have ended := computes rest held heap image holds
  unfold Method.expect
  rw [Method.lift_apply] at ended ⊢
  generalize call heap = one at ended
  cases ended with
  | ok after => exact .ok after
  | err after => exact .panic after
  | panic after => exact .panic after

theorem mapErr {δ : Type} {convert : ε → δ} (computes : Computes ledger borrowed call value rep) :
    Computes ledger borrowed (Method.mapErr convert call) (Outcome.mapErr convert value) rep := by
  intro rest held heap image holds
  have ended := computes rest held heap image holds
  unfold Method.mapErr
  rw [Method.lift_apply] at ended ⊢
  generalize call heap = one at ended
  cases ended with
  | ok after => exact .ok after
  | err after => exact .err after
  | panic after => exact .panic after

end Computes
end Heap
end SoteriaAegis.Rust
