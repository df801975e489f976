import SoteriaAegis.Rust.Memory
import SoteriaAegis.Crypto.Keys

/-! Protected keys as a process holds them: each is a block of the heap, with a note whether
its pages were locked. A key made, used and dropped here does what the key of `Crypto.Keys`
does, which is its bytes alone. The heap of these modules has the boxes of the keys in it and the
`Vec` in which a slot's cipher returns the master. Copies on the stack and all other buffers stay
values, and nothing is said about what becomes of them. -/

namespace SoteriaAegis.Memory
open Rust Crypto

/-- `AegisKey` with its allocation, as it is on Linux. -/
structure BoxedKey where
  data : Block
  locked : Bool
  deriving DecidableEq, Repr

variable {platform : Platform} {ε : Type}

/-- `mlock`, and `MADV_DONTDUMP` behind it when it succeeds. The answer of `madvise` is not looked at. -/
def lockMemory (block : Block) : Method (Heap platform) ε Bool := fun heap =>
  match platform.mlock heap.pages block with
  | (false, pages) => (.ok false, heap.setPages pages)
  | (true, pages) => (.ok true, heap.setPages (platform.madvise pages block .dontDump))

def unlockMemory (block : Block) (heap : Heap platform) : Heap platform :=
  let heap := heap.setPages (platform.madvise heap.pages block .doDump)
  heap.setPages (platform.munlock heap.pages block)

def lockPages (pages : platform.Pages) (block : Block) : platform.Pages :=
  if (platform.mlock pages block).1 then platform.madvise (platform.mlock pages block).2
    block .dontDump
  else (platform.mlock pages block).2

theorem lockMemory_eq (block : Block) (heap : Heap platform) :
    (lockMemory block : Method (Heap platform) ε Bool) heap =
      (.ok (platform.mlock heap.pages block).1, heap.setPages (lockPages heap.pages block)) := by
  unfold lockMemory lockPages
  cases platform.mlock heap.pages block with
  | mk locked pages =>
    cases locked with
    | false => rfl
    | true => rfl

theorem isLocked_lockPages (pages : platform.Pages) (block : Block) (page : Nat) :
    platform.isLocked (lockPages pages block) page =
      (platform.isLocked pages page || (platform.mlock pages block).1 && block.touches
        platform.pageSize page) := by
  unfold lockPages
  split
  · rw [platform.isLocked_madvise, platform.isLocked_mlock]
  · rw [platform.isLocked_mlock]

theorem isLocked_unlockMemory (block : Block) (heap : Heap platform) (page : Nat) :
    platform.isLocked (unlockMemory block heap).pages page =
      (platform.isLocked heap.pages page && !block.touches platform.pageSize page) := by
  change platform.isLocked (platform.munlock (platform.madvise heap.pages block .doDump) block)
    page = _
  rw [platform.isLocked_munlock, platform.isLocked_madvise]

/-- The advice to leave a page out of core dumps can only take effect on a block that lies on the
page and starts where some page does: `madvise` refuses any other. -/
def Advised (platform : Platform) (block : Block) (page : Nat) : Prop :=
  block.base % platform.pageSize = 0 ∧ block.touches platform.pageSize page = true

theorem isDumped_madvise {block : Block} {page : Nat} (unheard : ¬Advised platform block page)
    (pages : platform.Pages)
    (advice : Advice) : platform.isDumped (platform.madvise pages block advice) page =
    platform.isDumped pages page := by
  apply platform.isDumped_madvise
  by_cases aligned : block.base % platform.pageSize = 0
  · exact Or.inr (Bool.eq_false_iff.mpr fun touched => unheard ⟨aligned, touched⟩)
  · exact Or.inl aligned

theorem isDumped_lockPages {block : Block} {page : Nat} (unheard : ¬Advised platform block page)
    (pages : platform.Pages) :
    platform.isDumped (lockPages pages block) page = platform.isDumped pages page := by
  unfold lockPages
  split
  · rw [isDumped_madvise unheard, platform.isDumped_mlock]
  · rw [platform.isDumped_mlock]

theorem isDumped_unlockMemory {block : Block} {page : Nat} (unheard : ¬Advised platform block page)
    (heap : Heap platform) :
    platform.isDumped (unlockMemory block heap).pages page = platform.isDumped heap.pages page := by
  change platform.isDumped (platform.munlock (platform.madvise heap.pages block .doDump) block)
    page = _
  rw [platform.isDumped_munlock, isDumped_madvise unheard]

namespace BoxedKey

def new (material : List UInt8) : Method (Heap platform) ε BoxedKey := do
  let data ← Heap.alloc material.length
  Heap.copyFromSlice data material
  let locked ← lockMemory data
  return ⟨data, locked⟩

def new32 (material : U8Array 32) : Method (Heap platform) ε BoxedKey := new material.val

def expose (key : BoxedKey) (heap : Heap platform) : List UInt8 := load heap.cells key.data

def len (key : BoxedKey) : Nat := key.data.size

def isEmpty (key : BoxedKey) : Bool := key.data.size == 0

def ctEq (key other : BoxedKey) (heap : Heap platform) : Bool :=
  if key.data.size ≠ other.data.size then false
  else AegisKey.xorOr 0 ((key.expose heap).zip (other.expose heap)) == 0

def zeroize (key : BoxedKey) (heap : Heap platform) : Heap platform :=
  heap.write key.data (List.replicate key.data.size 0)

def drop (key : BoxedKey) (heap : Heap platform) : Heap platform :=
  let wiped := key.zeroize heap
  let unlocked := if key.locked then unlockMemory key.data wiped else wiped
  unlocked.free key.data

def burn (key : BoxedKey) (heap : Heap platform) : Heap platform := key.drop (key.zeroize heap)

def entry (boxed : BoxedKey) (key : AegisKey) : Block × List UInt8 := (boxed.data, key.data)

def Rep (boxed : BoxedKey) (key : AegisKey) (mine : List (Block × List UInt8)) : Prop :=
  mine = [boxed.entry key]

def next (heap : Heap platform) (size : Nat) : BoxedKey :=
  ⟨heap.fresh size, (platform.mlock heap.pages (heap.fresh size)).1⟩

def made (material : List UInt8) (heap : Heap platform) : Heap platform :=
  (((Heap.alloc material.length : Method (Heap platform) AegisError Block) heap).2.write
    (heap.fresh material.length)
    material).setPages (lockPages heap.pages (heap.fresh material.length))

/-- The block counts as locked, and lies on the page. -/
def pins (pageSize : Nat) (key : BoxedKey) (page : Nat) : Bool :=
  key.locked && key.data.touches pageSize page

/-- The kernel holds every page of the block in memory. -/
def Pinned (key : BoxedKey) (heap : Heap platform) : Prop :=
  ∀ page, key.data.touches platform.pageSize page = true → platform.isLocked heap.pages page = true

section
variable {ledger : Heap.Ledger} {heap : Heap platform}
  {contents borrowed : List (Block × List UInt8)}
  {boxed other : BoxedKey} {key key' : AegisKey}

/-- The copy fits, and the key is made whatever the kernel answers. -/
theorem new_eq (material : List UInt8) (heap : Heap platform) :
    (new material : Method (Heap platform) ε BoxedKey) heap =
      (.ok (next heap material.length), made material heap) := by
  rw [new, Method.bind_of_ok _ _ (Heap.alloc_eq _ heap),
    Method.bind_of_ok _ _ (Heap.copyFromSlice_eq _ rfl),
    Method.bind_of_ok _ _ (lockMemory_eq _ _)]
  rfl

theorem made_holds (holds : Heap.Holds ledger heap contents) (material : List UInt8) :
    Heap.Holds ledger (made material heap)
      (((next heap material.length).data, material) :: contents) :=
  ((holds.alloc material.length).write rfl).setPages _

theorem isLocked_made (material : List UInt8) (heap : Heap platform) (page : Nat) :
    platform.isLocked (made material heap).pages page =
      (platform.isLocked heap.pages page || (next heap material.length).pins
        platform.pageSize page) :=
  isLocked_lockPages _ _ page

theorem isLocked_drop (boxed : BoxedKey) (heap : Heap platform) (page : Nat) :
    platform.isLocked (boxed.drop heap).pages page =
      (platform.isLocked heap.pages page && !boxed.pins platform.pageSize page) := by
  obtain ⟨data, locked⟩ := boxed
  cases locked with
  | false => exact (Bool.and_true _).symm
  | true => exact isLocked_unlockMemory data _ page

theorem isDumped_made {material : List UInt8} {heap : Heap platform} {page : Nat}
    (unheard : ¬Advised platform (next heap material.length).data page) :
    platform.isDumped (made material heap).pages page = platform.isDumped heap.pages page :=
    isDumped_lockPages unheard _

theorem isDumped_drop {boxed : BoxedKey} {page : Nat} (unheard : ¬Advised platform boxed.data page)
    (heap : Heap platform) :
    platform.isDumped (boxed.drop heap).pages page = platform.isDumped heap.pages page := by
  unfold drop
  split
  · exact isDumped_unlockMemory unheard _
  · rfl

theorem drop_holds (holds : Heap.Holds ledger heap (boxed.entry key :: contents)) :
    Heap.Holds ledger (boxed.drop heap) contents := by
  have wiped : Heap.Holds ledger (boxed.zeroize heap)
    ((boxed.data, List.replicate boxed.data.size 0) :: contents) :=
    holds.write (List.length_replicate ..)
  have zeros : ∀ byte ∈ List.replicate boxed.data.size (0 : UInt8), byte = 0 :=
    fun _ member => List.eq_of_mem_replicate member
  unfold drop
  split
  · exact ((wiped.setPages _).setPages _).free (Or.inl zeros)
  · exact wiped.free (Or.inl zeros)

theorem burn_eq_drop (boxed : BoxedKey) (heap : Heap platform) :
    boxed.burn heap = boxed.drop heap := by
  have twice : boxed.zeroize (boxed.zeroize heap) = boxed.zeroize heap :=
    Heap.write_write boxed.data _ heap
  unfold burn drop
  rw [twice]

theorem expose_eq (holds : Heap.Holds ledger heap contents) (live : boxed.entry key ∈ contents) :
    boxed.expose heap = key.expose := holds.load_eq live

theorem ctEq_eq (holds : Heap.Holds ledger heap contents) (live : boxed.entry key ∈ contents)
    (live' : other.entry key' ∈ contents) : boxed.ctEq other heap = key.ctEq key' := by
  unfold ctEq AegisKey.ctEq
  rw [expose_eq holds live, expose_eq holds live', ← holds.size_eq live, ← holds.size_eq live']
  rfl

theorem new_computes (material : List UInt8) :
    Heap.Computes ledger borrowed (new material : Method (Heap platform) ε BoxedKey)
      (.ok (AegisKey.new material)) Rep := by
  intro rest _ heap _ holds
  rw [new_eq]
  exact .ok ⟨_, rfl, made_holds holds material⟩

end
end BoxedKey

/-- Each block given back since `heap` held zeros then. -/
def Wiped (heap after : Heap platform) : Prop :=
  ∃ gone, after.freed = gone ++ heap.freed ∧ ∀ entry ∈ gone, ∀ byte ∈ entry.2, byte = 0

theorem wiped_of_admits {heap after : Heap platform}
    (admits : Heap.Ledger.Admits ⟨heap.freed, fun _ => False⟩ after.freed) : Wiped heap after := by
  obtain ⟨gone, log, fine⟩ := admits
  exact ⟨gone, log, fun entry member => (fine entry member).resolve_right id⟩

end SoteriaAegis.Memory
