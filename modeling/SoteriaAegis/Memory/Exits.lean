import SoteriaAegis.Memory.Commands
import SoteriaAegis.Cli.EndToEnd

/-! What a process leaves in its memory. The program does there what it does on values. When it
returns, the keys of its vault are gone; when it ends with `fail`, they are where they were. -/

namespace SoteriaAegis.Memory
open Rust Crypto Slots Vault Access
open Cli (Str Draws Disk Failure initAlice letterDisk)

variable {platform : Platform} {α β γ : Type}

def SameKeys (vault other : AegisVault) : Prop :=
  other.master = vault.master ∧ other.hierarchy = vault.hierarchy

theorem sealSlots_keys (crates : Crates) (passphrase : List UInt8) (draws : TableDraws)
    (vault : AegisVault) :
    SameKeys vault (AegisVault.sealSlots crates passphrase draws vault).2 := by
  rw [AegisVault.sealSlots, Method.self_bind]
  simp only [Method.bind_apply, Method.lift_apply]
  cases (U8Array.copyFromSlice MASTER_LEN vault.master.expose : AegisResult _) with
  | ok raw =>
    cases made : KeySlotTable.newInitial crates raw passphrase draws with
    | ok table => simp only [made, Method.update_apply, SameKeys, and_self]
    | err error => simp only [made, SameKeys, and_self]
    | panic => simp only [made, SameKeys, and_self]
  | err error => exact ⟨rfl, rfl⟩
  | panic => exact ⟨rfl, rfl⟩

theorem addSlot_keys (crates : Crates) (passphrase : List UInt8) (draws : TableDraws)
    (vault : AegisVault) :
    SameKeys vault (AegisVault.addSlot crates passphrase draws vault).2 := by
  have sealing := sealSlots_keys crates passphrase draws vault
  rw [AegisVault.addSlot, Method.self_bind]
  simp only [Method.bind_apply, Method.lift_apply]
  cases (U8Array.copyFromSlice MASTER_LEN vault.master.expose : AegisResult _) with
  | ok raw =>
    cases vault.slots with
    | some table => exact ⟨rfl, rfl⟩
    | none =>
      simp only [Method.bind_apply]
      generalize AegisVault.sealSlots crates passphrase draws vault = ended at sealing
      obtain ⟨result, after⟩ := ended
      cases result with
      | ok value => exact sealing
      | err error => exact sealing
      | panic => exact sealing
  | err error => exact ⟨rfl, rfl⟩
  | panic => exact ⟨rfl, rfl⟩

section
variable {ledger : Heap.Ledger} {rest : List (Block × List UInt8)} {keys vault : AegisVault}
  {running : Running platform} {disk : Disk}

/-- Both sides see one disk, and the vault in memory has the values of the other. -/
def Alike (ledger : Heap.Ledger) (rest : List (Block × List UInt8)) (vault : AegisVault)
    (running : Running platform) (disk : Disk) : Prop :=
  running.disk = disk ∧ Process.Mirrors ledger [] rest running.process vault

def Live (ledger : Heap.Ledger) (rest : List (Block × List UInt8)) (keys : AegisVault)
    (running : Running platform) (disk : Disk) : Prop :=
  running.disk = disk ∧ Heap.Holds ledger running.process.heap
    (running.process.vault.entries keys ++ rest)

theorem Alike.live (alike : Alike ledger rest vault running disk) (same : SameKeys keys vault) :
    Live ledger rest keys running disk := by
  have entries : running.process.vault.entries keys = running.process.vault.entries vault := by
    rw [BoxedVault.entries, BoxedVault.entries, same.1, same.2]
  exact ⟨alike.1, entries ▸ alike.2.holds⟩

def Runs (ledger : Heap.Ledger) (rest : List (Block × List UInt8)) (keys vault : AegisVault)
    (impl : Method (Running platform) Failure α) (spec : Cli.Process α) : Prop :=
  impl.Refines spec (Alike ledger rest vault)
    (fun one other running disk => one = other ∧ Live ledger rest keys running disk)
      (Live ledger rest keys)

namespace Runs
variable {convert : AegisError → Failure} {impl : Method (Running platform) Failure α}
  {spec : Cli.Process α}

theorem onVault_bind {call : Method (Process platform) AegisError γ}
    {call' : Method AegisVault AegisError γ}
    {next : γ → Method (Running platform) Failure α} {next' : γ × AegisVault → Cli.Process α}
    (faithful : Process.Faithful ledger [] rest call call') (same : SameKeys keys (call' vault).2)
    (others : ∀ value after, call' vault = (.ok value, after) →
      Runs ledger rest keys after (next value) (next' (value, after))) :
    Runs ledger rest keys vault (Running.onVault (call.mapErr convert) >>= next)
      (Method.lift ((call'.on vault).mapErr convert) >>= next') := by
  intro running disk ⟨sameDisk, mirrors⟩
  have ended := faithful running.process vault mirrors
  rw [Method.bind_apply, Method.bind_apply, Method.lift_apply]
  unfold Running.onVault Method.mapErr Method.on
  cases called : call' vault with
  | mk result after =>
    rw [called] at ended same
    generalize call running.process = one at ended
    cases ended with
    | ok related =>
      obtain ⟨rfl, mirrored⟩ := related
      exact others _ _ called ⟨_, running.disk⟩ disk ⟨sameDisk, mirrored⟩
    | err mirrored => exact .err (Alike.live ⟨sameDisk, mirrored⟩ same)
    | panic mirrored => exact .panic (Alike.live ⟨sameDisk, mirrored⟩ same)

theorem reads_bind {call : Method (Process platform) AegisError γ} {value : AegisResult γ}
    {next : γ → Method (Running platform) Failure α} {next' : γ → Cli.Process α}
    (same : SameKeys keys vault)
    (reads : ∀ process : Process platform, process.Mirrors ledger [] rest vault →
      call process = (value, process))
    (others : ∀ found, Runs ledger rest keys vault (next found) (next' found)) :
    Runs ledger rest keys vault (Running.onVault (call.mapErr convert) >>= next)
      (Method.lift (value.mapErr convert) >>= next') := by
  intro running disk alike
  rw [Method.bind_apply, Method.bind_apply, Method.lift_apply]
  unfold Running.onVault Method.mapErr
  rw [reads running.process alike.2]
  cases value with
  | ok found => exact others found running disk alike
  | err error => exact .err (alike.live same)
  | panic => exact .panic (alike.live same)

theorem onDisk_bind {call : Cli.Process γ} {next : γ → Method (Running platform) Failure α}
    {next' : γ → Cli.Process α} (same : SameKeys keys vault)
    (others : ∀ found, Runs ledger rest keys vault (next found) (next' found)) :
    Runs ledger rest keys vault (Running.onDisk call >>= next) (call >>= next') := by
  intro running disk ⟨sameDisk, mirrors⟩
  rw [Method.bind_apply, Method.bind_apply]
  unfold Running.onDisk
  rw [sameDisk]
  cases call disk with
  | mk result after =>
    have alike : Alike ledger rest vault ⟨running.process, after⟩ after := ⟨rfl, mirrors⟩
    cases result with
    | ok found => exact others found _ _ alike
    | err failure => exact .err (alike.live same)
    | panic => exact .panic (alike.live same)

theorem onDisk {call : Cli.Process α} (same : SameKeys keys vault) :
    Runs ledger rest keys vault (Running.onDisk call : Method (Running platform) Failure α)
      call := by
  intro running disk ⟨sameDisk, mirrors⟩
  unfold Running.onDisk
  rw [sameDisk]
  cases call disk with
  | mk result after =>
    have alike : Alike ledger rest vault ⟨running.process, after⟩ after := ⟨rfl, mirrors⟩
    cases result with
    | ok value => exact .ok ⟨rfl, alike.live same⟩
    | err failure => exact .err (alike.live same)
    | panic => exact .panic (alike.live same)

theorem lift_bind {call : Outcome Failure γ} {next : γ → Method (Running platform) Failure α}
    {next' : γ → Cli.Process α} (same : SameKeys keys vault)
    (others : ∀ found, Runs ledger rest keys vault (next found) (next' found)) :
    Runs ledger rest keys vault (Method.lift call >>= next) (Method.lift call >>= next') :=
  Method.Refines.lift_bind (fun _ _ alike => alike.live same) fun found _ => others found

theorem fail {failure : Failure} (same : SameKeys keys vault) :
    Runs ledger rest keys vault (Method.fail failure : Method (Running platform) Failure α)
      (Method.fail failure) :=
  Method.Refines.fails fun _ _ alike => alike.live same

theorem pure {value : α} (same : SameKeys keys vault) :
    Runs ledger rest keys vault (Pure.pure value : Method (Running platform) Failure α)
      (Pure.pure value) :=
  Method.Refines.pure fun _ _ alike => ⟨rfl, alike.live same⟩

variable (crates : Crates)

theorem saveVault (path : Str) (same : SameKeys keys vault) :
    Runs ledger rest keys vault
      (Memory.saveVault crates path : Method (Running platform) Failure Unit)
      (Method.lift (Cli.savedVault crates vault) >>= Cli.writeFile path) := by
  rw [Cli.lift_savedVault]
  intro running disk alike
  rw [Memory.saveVault, Method.self_bind, alike.2.slots]
  refine lift_bind same (fun bytes => ?_) running disk alike
  exact lift_bind same fun salt => onDisk same

end Runs

/-- What stays behind a result when the vault of the command is `live`: the keys, when it is an
exit. -/
def atExit (result : Outcome Failure α) (live : Option AegisVault) : Option AegisVault :=
  match result with
  | .err _ => live
  | _ => none

def Remains (ledger : Heap.Ledger) (rest : List (Block × List UInt8))
    (heap : Heap platform) : Option AegisVault → Prop
  | none => Heap.Holds ledger heap rest
  | some vault => ∃ boxed : BoxedVault, Heap.Holds ledger heap (boxed.entries vault ++ rest)

/-- The two programs end alike, and the one in memory leaves there what is to remain. -/
def Ends (ledger : Heap.Ledger) (rest : List (Block × List UInt8))
    (live : Option AegisVault)
    (one : Outcome Failure α × Machine platform) (two : Outcome Failure α × Disk) : Prop :=
  one.1 = two.1 ∧ one.2.disk = two.2 ∧ Remains ledger rest one.2.heap (atExit two.1 live)

theorem holding_ends {machine : Machine platform} {boxed : BoxedVault}
    {body : Method (Running platform) Failure α}
    {spec : Cli.Process α} (runs : Runs ledger rest keys vault body spec)
    (alike : Alike ledger rest vault ⟨⟨machine.heap, boxed⟩, machine.disk⟩ disk) :
    Ends ledger rest (some keys) (Machine.holding boxed body machine) (spec disk) := by
  have ended := runs _ _ alike
  unfold Machine.holding
  generalize body ⟨⟨machine.heap, boxed⟩, machine.disk⟩ = one at ended
  generalize spec disk = two at ended
  cases ended with
  | ok related =>
    obtain ⟨rfl, sameDisk, holds⟩ := related
    exact ⟨rfl, sameDisk, BoxedHierarchy.drop_holds (BoxedKey.drop_holds holds)⟩
  | err live => exact ⟨rfl, live.1, _, live.2⟩
  | panic live => exact ⟨rfl, live.1, BoxedHierarchy.drop_holds (BoxedKey.drop_holds live.2)⟩

end

/-- The vault of a command that opens a file, from the throwaway one on: what `open_from_slots`
leaves of it. -/
def openedVault (crates : Crates) (disk : Disk) (file pass : Str) : Option AegisVault := do
  let (slotBytes, salt) ← (Cli.readVault file disk).1.toOption
  let ignored ← (AegisVault.unlock crates (ascii "ignored") Cli.MASTER_SALT Cli.MEM_KIB
    Cli.ITERS).toOption
  return (AegisVault.openFromSlots crates slotBytes salt pass ignored).2

/-- The vault that a process holds, once its request has come so far. -/
def liveVault (crates : Crates) (disk : Disk) : Request Str Str → Option AegisVault
  | .create pass _ => (AegisVault.unlock crates pass Cli.MASTER_SALT Cli.MEM_KIB Cli.ITERS).toOption
  | .enroll pass _ file => openedVault crates disk file pass
  | .wrap pass file _ _ => openedVault crates disk file pass
  | .unwrap pass file _ _ => openedVault crates disk file pass
  | .check pass file => openedVault crates disk file pass

def ShownTo (crates : Crates) (disk : Disk) (wish : Request Str Str) (plaintext : List UInt8) :
    Prop :=
  ∃ file slotBytes salt, Cli.vaultOf wish = some file ∧
    (Cli.readVault file disk).1 = .ok (slotBytes, salt) ∧
    Process.Shown crates slotBytes salt (Cli.passOf wish) plaintext

def Exposed (crates : Crates) (ledger : Heap.Ledger) (disk : Disk) (wish : Request Str Str) :
    Prop :=
  ∀ plaintext, ShownTo crates disk wish plaintext → ledger.allowed plaintext

section
variable {crates : Crates} {ledger : Heap.Ledger} {rest : List (Block × List UInt8)}
  {machine : Machine platform} {draws : Draws}
  (holds : Heap.Holds ledger machine.heap rest)

include holds in
theorem Ends.failed {failure : Failure} :
    Ends ledger rest none ((.err failure, machine) : Outcome Failure α × Machine platform)
    (.err failure, machine.disk) := ⟨rfl, rfl, holds⟩

include holds in
theorem vault_bind_ends {call : Method (Heap platform) Failure BoxedVault}
    {value : Outcome Failure AegisVault}
    (computes : Heap.Computes ledger [] call value BoxedVault.Rep) {live : Option AegisVault}
    {body : Method (Running platform) Failure α} {spec : AegisVault → Cli.Process α}
    (failed : ∀ failure, value = .err failure → live = none)
    (others : ∀ vault, value = .ok vault → ∃ keys, live = some keys ∧
      Runs ledger rest keys vault body (spec vault)) :
    Ends ledger rest live ((Machine.onHeap call >>= fun boxed => Machine.holding boxed body)
      machine) ((Method.lift value >>= spec) machine.disk) := by
  have ended := computes.returns (List.nil_subset _) machine.heap () holds
  rw [Method.bind_apply, Method.bind_apply, Method.lift_apply]
  unfold Machine.onHeap
  rw [Method.lift_apply] at ended
  generalize call machine.heap = one at ended
  cases ended with
  | ok related =>
    obtain ⟨returned, mine, ⟨slots, owned⟩, held⟩ := related
    subst owned
    obtain ⟨keys, rfl, runs⟩ := others _ returned
    exact holding_ends runs ⟨rfl, ⟨slots, held⟩⟩
  | err held =>
    rw [failed _ rfl]
    exact ⟨rfl, rfl, held⟩
  | panic held => exact ⟨rfl, rfl, held⟩

include holds in
theorem withVault_ends {wish : Request Str Str}
    (exposed : Exposed crates ledger machine.disk wish)
    {file : Str} (named : Cli.vaultOf wish = some file) {body : Method (Running platform) Failure α}
    {spec : AegisVault → Cli.Process α}
    (runs : ∀ vault, Runs ledger rest vault vault body (spec vault)) :
    Ends ledger rest (openedVault crates machine.disk file (Cli.passOf wish))
      (withVault crates file (Cli.passOf wish) body machine)
      ((Cli.openVault crates file (Cli.passOf wish) >>= spec) machine.disk) := by
  rw [withVault, Cli.openVault, Method.bind_assoc, Method.bind_apply, Method.bind_apply]
  unfold Machine.onDisk
  have same := Cli.readVault_reads file machine.disk
  unfold openedVault
  cases read : Cli.readVault file machine.disk with
  | mk result after =>
    rw [read] at same
    subst same
    cases result with
    | err failure => exact Ends.failed holds
    | panic => exact ⟨rfl, rfl, holds⟩
    | ok answer =>
      obtain ⟨slotBytes, salt⟩ := answer
      simp only [Method.bind_assoc]
      refine vault_bind_ends holds
        (BoxedVault.unlock_computes crates (ascii "ignored") Cli.MASTER_SALT Cli.MEM_KIB
          Cli.ITERS).expect ?_ ?_
      · intro failure failed
        cases unlocked : AegisVault.unlock crates (ascii "ignored") Cli.MASTER_SALT Cli.MEM_KIB
          Cli.ITERS <;>
          rw [unlocked] at failed <;> cases failed
      intro ignored made
      rw [Outcome.expect_eq_ok_iff] at made
      rw [made]
      have spills : ∀ plaintext, Process.Shown crates slotBytes salt (Cli.passOf wish) plaintext →
          ledger.allowed plaintext :=
        fun plaintext shown =>
          exposed plaintext ⟨file, slotBytes, salt, named, by rw [read], shown⟩
      refine ⟨_, rfl, Runs.onVault_bind (Process.openFromSlots_faithful crates spills)
        ⟨rfl, rfl⟩ ?_⟩
      intro _ vault opened
      rw [opened]
      exact runs vault

theorem verifyVolume_mapErr (vault : AegisVault) (convert : AegisError → Failure) :
    Outcome.mapErr convert (vault.verifyVolume crates) = vault.verifyVolume crates := by
  unfold AegisVault.verifyVolume
  cases vault.slots with
  | none => rfl
  | some table =>
    unfold U8Array.copyFromSlice
    by_cases fits : vault.master.expose.length = MASTER_LEN
    · simp only [dif_pos fits, Outcome.ok_bind]
      rfl
    · simp only [dif_neg fits, Outcome.panic_bind]
      rfl

include holds in
theorem create_ends (pass out : Str) :
    Ends ledger rest (liveVault crates machine.disk (.create pass out))
      (serve crates draws (.create pass out) machine)
      (Cli.serve crates draws (.create pass out) machine.disk) := by
  rw [Cli.serve_create, serve, liveVault]
  refine vault_bind_ends holds
    (BoxedVault.unlock_computes crates pass Cli.MASTER_SALT Cli.MEM_KIB Cli.ITERS).mapErr ?_ ?_
  · intro failure failed
    cases unlocked : AegisVault.unlock crates pass Cli.MASTER_SALT Cli.MEM_KIB Cli.ITERS with
    | ok vault =>
      rw [unlocked] at failed
      cases failed
    | err error => rfl
    | panic => rfl
  intro vault made
  rw [Outcome.mapErr_eq_ok_iff] at made
  have kept := sealSlots_keys crates pass draws.table vault
  refine ⟨vault, by rw [made]; rfl,
    Runs.onVault_bind (Process.sealSlots_faithful crates pass draws.table) kept ?_⟩
  intro _ after sealing
  rw [sealing] at kept
  exact Runs.saveVault crates out kept

include holds in
theorem serve_ends {wish : Request Str Str} (exposed : Exposed crates ledger machine.disk wish) :
    Ends ledger rest (liveVault crates machine.disk wish) (serve crates draws wish machine)
      (Cli.serve crates draws wish machine.disk) := by
  have same : ∀ vault : AegisVault, SameKeys vault vault := fun _ => ⟨rfl, rfl⟩
  cases wish with
  | create pass out => exact create_ends holds pass out
  | enroll pass newp file =>
    rw [Cli.serve_enroll, serve, liveVault]
    apply withVault_ends holds exposed rfl
    intro vault
    have kept := addSlot_keys crates newp draws.table vault
    refine Runs.onVault_bind (Process.addSlot_faithful crates newp draws.table) kept ?_
    intro idx after added
    rw [added] at kept
    exact Runs.saveVault crates file kept
  | wrap pass file inp out =>
    rw [Cli.serve_wrap, serve, liveVault]
    apply withVault_ends holds exposed rfl
    intro vault
    apply Runs.onDisk_bind (same vault)
    intro data
    apply Runs.reads_bind (same vault) fun process mirrors => mirrors.encrypt_eq crates _ _ _ _ _
    intro message
    exact Runs.onDisk (same vault)
  | unwrap pass file inp out =>
    rw [Cli.serve_unwrap, serve, liveVault]
    apply withVault_ends holds exposed rfl
    intro vault
    apply Runs.onDisk_bind (same vault)
    intro blob
    refine Method.Refines.ite (Runs.fail (same vault)) (Runs.lift_bind (same vault) fun nlen => ?_)
    refine Method.Refines.ite (Runs.fail (same vault)) (Runs.lift_bind (same vault) fun nonce =>
      Runs.lift_bind (same vault) fun ct => ?_)
    apply Runs.reads_bind (same vault) fun process mirrors => mirrors.decrypt_eq crates _ _ _ _ _
    intro pt
    exact Runs.onDisk (same vault)
  | check pass file =>
    rw [Cli.serve_check, serve, liveVault]
    apply withVault_ends holds exposed rfl
    intro vault
    rw [← verifyVolume_mapErr vault fun _ => .verifyFailed]
    apply Runs.reads_bind (same vault) fun process mirrors => mirrors.verifyVolume_eq crates
    intro verified
    exact Method.Refines.ite (Runs.pure (same vault)) (Runs.fail (same vault))

include holds in
theorem main_ends {argv : List Str} (exposed : ∀ wish, Cli.requestOf argv = some wish →
      Exposed crates ledger machine.disk wish) :
    Ends ledger rest ((Cli.requestOf argv).bind (liveVault crates machine.disk))
      (main crates draws argv machine) (Cli.main crates draws argv machine.disk) := by
  unfold main Cli.main
  unfold Cli.requestOf at exposed ⊢
  cases parsed : Cli.parseArgs argv with
  | err failure => exact Ends.failed holds
  | panic => exact ⟨rfl, rfl, holds⟩
  | ok answer =>
    rw [parsed] at exposed
    obtain ⟨command, args⟩ := answer
    change Ends ledger rest ((Cli.request command args).bind _)
      ((Method.lift (Cli.asks command args) >>= serve crates draws) machine)
      (Cli.dispatch crates command args draws machine.disk)
    rw [Cli.dispatch_eq_serve]
    cases asked : Cli.asks command args with
    | ok wish =>
      have requested := Cli.asks_eq_ok_iff.mp asked
      rw [requested]
      exact serve_ends holds (exposed wish requested)
    | err failure =>
      rw [← Cli.asks_toOption, asked]
      exact Ends.failed holds
    | panic => exact absurd asked (Cli.asks_ne_panic command args)

end

def ShownBy (crates : Crates) (disk : Disk) (argv : List Str) (plaintext : List UInt8) : Prop :=
  ∃ wish, Cli.requestOf argv = some wish ∧ ShownTo crates disk wish plaintext

/-- What a process leaves of the heap: these keys are in boxes of their own, those in use before
hold what they held, and what was given back is zeros, or is shown. -/
structure Leaves (shown : List UInt8 → Prop) (heap after : Heap platform)
    (keys : List (Block × List UInt8)) : Prop where
  taken : after.taken.Perm (keys.map Prod.fst ++ heap.taken)
  keys : ∀ entry ∈ keys, load after.cells entry.1 = entry.2
  others : ∀ block ∈ heap.taken, load after.cells block = load heap.cells block
  returned : ∃ gone, after.freed = gone ++ heap.freed ∧
    ∀ entry ∈ gone, (∀ byte ∈ entry.2, byte = 0) ∨ shown entry.2

theorem Leaves.of_holds {shown : List UInt8 → Prop} {heap after : Heap platform}
    {keys : List (Block × List UInt8)}
    (holds : Heap.Holds ⟨heap.freed, shown⟩ after (keys ++ heap.blocks)) :
    Leaves shown heap after keys where
  taken := by
    have taken := holds.taken
    rw [List.map_append, heap.blocks_fst] at taken
    exact taken
  keys entry member := holds.load_eq (List.mem_append_left _ member)
  others block member := holds.load_eq (List.mem_append_right _ (List.mem_map_of_mem member))
  returned := holds.returned

/-- A process in memory returns, fails or panics as it does on values, and writes the same. Unless
it fails, no key is left; when it fails with a vault in its hands, the master and the six domain
keys of that vault stay in memory, each in its block. -/
theorem main_leaves (crates : Crates) (heap : Heap platform) (draws : Draws) (argv : List Str)
    (disk : Disk) :
    ∃ result after written, main crates draws argv ⟨heap, disk⟩ = (result, ⟨after, written⟩) ∧
      Cli.main crates draws argv disk = (result, written) ∧
      ((∀ failure, result ≠ .err failure) → Leaves (ShownBy crates disk argv) heap after []) ∧
      ∀ failure, result = .err failure →
        ((Cli.requestOf argv).bind (liveVault crates disk) = none →
          Leaves (ShownBy crates disk argv) heap after []) ∧
        ∀ vault, (Cli.requestOf argv).bind (liveVault crates disk) = some vault →
          ∃ boxed : BoxedVault,
            Leaves (ShownBy crates disk argv) heap after (boxed.entries vault) := by
  have initial : Heap.Holds ⟨heap.freed, ShownBy crates disk argv⟩ (Machine.mk heap disk).heap
      heap.blocks := Heap.Holds.start heap (ShownBy crates disk argv)
  have exposed : ∀ wish, Cli.requestOf argv = some wish → Exposed crates
      ⟨heap.freed, ShownBy crates disk argv⟩ (Machine.mk heap disk).disk wish :=
    fun wish asked _ shown => ⟨wish, asked, shown⟩
  have ends := @main_ends platform crates _ _ ⟨heap, disk⟩ draws initial argv exposed
  generalize main crates draws argv ⟨heap, disk⟩ = ended at ends
  obtain ⟨result, after, written⟩ := ended
  obtain ⟨same, rfl, remains⟩ := ends
  change result = (Cli.main crates draws argv disk).1 at same
  rw [← same] at remains
  refine ⟨result, after, _, rfl, Prod.ext same.symm rfl, ?_, ?_⟩
  · intro noError
    cases result with
    | ok value => exact Leaves.of_holds remains
    | err failure => exact absurd rfl (noError failure)
    | panic => exact Leaves.of_holds remains
  · intro failure failed
    rw [failed] at remains
    change Remains _ _ after ((Cli.requestOf argv).bind (liveVault crates disk)) at remains
    cases live : (Cli.requestOf argv).bind (liveVault crates disk) with
    | none =>
      rw [live] at remains
      refine ⟨fun _ => Leaves.of_holds remains, ?_⟩
      intro vault held
      cases held
    | some vault =>
      rw [live] at remains
      obtain ⟨boxed, holds⟩ := remains
      constructor
      · intro gone
        cases gone
      · intro other held
        rw [← Option.some.inj held]
        exact ⟨boxed, Leaves.of_holds holds⟩

-- The vault opens, and the file to be decrypted is missing.
example : (main checksumCrates initAlice.draws
    [ascii "aegis", ascii "open", ascii "-p", ascii "alice", ascii "-f", ascii "vault",
      ascii "-i", ascii "blob", ascii "-o", ascii "copy"]
    ⟨Heap.empty, (initAlice.exec checksumCrates letterDisk).2⟩).2.heap.taken.length = 7 := by
  decide +kernel

end SoteriaAegis.Memory
