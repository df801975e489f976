import SoteriaAegis.Cli.Files
import SoteriaAegis.Vault.Coherence

/-! The vault file along a run of `add` processes, failing ones included. -/

namespace SoteriaAegis.Cli
open Rust Crypto Slots Vault

structure Invocation (command : Str) where
  argv : List Str
  args : Args
  parsed : parseArgs argv = .ok (command, args)
  draws : Draws

def Invocation.passphrases {command : Str} (invocation : Invocation command) : List Str :=
  (invocation.args (ascii "p")).toList ++ (invocation.args (ascii "n")).toList

/-- The disk, and those a vault file was made for. -/
structure Session where
  disk : Disk
  members : List Str

variable (crates : Crates)

def Invocation.exec {command : Str} (invocation : Invocation command) : Process Unit :=
  main crates invocation.draws invocation.argv

/-- An `add` that succeeded on `file` has made its new passphrase a member. -/
def addStep (file : Str) (session : Session) (add : Invocation (ascii "add")) : Option Session :=
  match add.exec crates session.disk with
  | (.ok (), disk) =>
    if add.args (ascii "f") = some file then some ⟨disk, session.members ++ (add.args (ascii "n")).toList⟩
    else some ⟨disk, session.members⟩
  | (_, disk) => some ⟨disk, session.members⟩

def storedTable (file : Str) (disk : Disk) : Option KeySlotTable :=
  (readVault file disk).1.toOption.bind fun stored => (KeySlotTable.fromBytes crates stored.1 stored.2).toOption

variable {crates} in
theorem storedTable_eq_some_iff {file : Str} {disk : Disk} {table : KeySlotTable} :
    storedTable crates file disk = some table ↔ ∃ slotBytes salt,
      disk.files file = .ok (vaultFile slotBytes salt) ∧ KeySlotTable.fromBytes crates slotBytes salt = .ok table := by
  rw [storedTable, Option.bind_eq_some_iff]
  constructor
  · intro found
    obtain ⟨⟨slotBytes, salt⟩, read, parsed⟩ := found
    have answered := (readVault_reads file).eq_of_fst ((Outcome.toOption_eq_some_iff _ _).mp read)
    exact ⟨slotBytes, salt, ((readVault_eq_ok_iff _ _ _ _ _).mp answered).1,
      (Outcome.toOption_eq_some_iff _ _).mp parsed⟩
  · intro found
    obtain ⟨slotBytes, salt, content, parsed⟩ := found
    have read := (readVault_eq_ok_iff file disk disk slotBytes salt).mpr ⟨content, rfl⟩
    exact ⟨(slotBytes, salt), (Outcome.toOption_eq_some_iff _ _).mpr (congrArg Prod.fst read),
      (Outcome.toOption_eq_some_iff _ _).mpr parsed⟩

variable {crates} in
theorem storedTable_of_file {file : Str} {disk : Disk} {table : KeySlotTable} (small : table.slots.length < 256)
    (content : disk.files file = .ok (vaultFile (table.toBytes crates) table.headerSalt)) :
    storedTable crates file disk = some table :=
  storedTable_eq_some_iff.mpr ⟨_, _, content, KeySlotTable.fromBytes_toBytes crates table small⟩

theorem Invocation.pass_mem {command pass : Str} {invocation : Invocation command}
    (given : invocation.args (ascii "p") = some pass) : pass ∈ invocation.passphrases := by
  simp only [passphrases, given, Option.toList_some, List.singleton_append, List.mem_cons, true_or]

theorem Invocation.newp_mem {command newp : Str} {invocation : Invocation command}
    (given : invocation.args (ascii "n") = some newp) : newp ∈ invocation.passphrases := by
  simp only [passphrases, given, Option.toList_some, List.mem_append, List.mem_singleton, or_true]

theorem Invocation.exec_eq {command : Str} (invocation : Invocation command) :
    invocation.exec crates = dispatch crates command invocation.args invocation.draws := by
  funext disk
  simp only [exec, main, invocation.parsed, Method.bind_apply, Method.lift_apply]

theorem vaultFile_inj {slotBytes otherBytes : List UInt8} {salt otherSalt : U8Array 32}
    (same : vaultFile slotBytes salt = vaultFile otherBytes otherSalt) : slotBytes = otherBytes ∧ salt = otherSalt := by
  have first := (vaultFile_iff _ slotBytes salt).mp rfl
  have second := (vaultFile_iff _ otherBytes otherSalt).mp same
  have salts := first.2.2.2.1.symm.trans second.2.2.2.1
  exact ⟨first.2.2.2.2.symm.trans second.2.2.2.2, Subtype.ext salts⟩

theorem sealedBlob_ne_vaultFile (nonce ct slotBytes : List UInt8) (salt : U8Array 32) :
    sealedBlob nonce ct ≠ vaultFile slotBytes salt := by
  intro same
  have heads := congrArg List.head? same
  have letter : (vaultFile slotBytes salt).head? = some 0x41 := rfl
  rw [letter] at heads
  cases heads

theorem ignored_unlocks (expands : crates.ExpandsShort) {root : AegisKey}
    (derived : argon2idRoot crates (ascii "ignored") MASTER_SALT MEM_KIB ITERS = .ok root) :
    ∃ ignored, AegisVault.unlock crates (ascii "ignored") MASTER_SALT MEM_KIB ITERS = .ok ignored := by
  obtain ⟨raw, rfl⟩ := argon2idRoot_ok crates derived
  obtain ⟨hierarchy, expanded⟩ := KeyHierarchy.fromMaster_total crates expands raw.val
  refine ⟨⟨AegisKey.new32 raw, hierarchy, none⟩, ?_⟩
  apply (AegisVault.unlock_eq_ok_iff crates _ _ _ _ _).mpr
  exact ⟨raw, derived, (AegisVault.fromMasterKey_eq_ok_iff crates _ _).mpr ⟨hierarchy, expanded, rfl⟩⟩

theorem addStep_cases {file : Str} {session next : Session} {add : Invocation (ascii "add")}
    (stepped : addStep crates file session add = some next) :
    next = session ∨ ∃ pass newp path v idx v' table, pass ∈ add.passphrases ∧ newp ∈ add.passphrases ∧
      openVault crates path pass session.disk = (.ok v, session.disk) ∧
      AegisVault.addSlot crates newp add.draws.table v = (.ok idx, v') ∧ v'.slots = some table ∧
      next.disk = session.disk.write path (vaultFile (table.toBytes crates) table.headerSalt) ∧
      next.members = if path = file then session.members ++ [newp] else session.members := by
  have atomic := main_atomic crates add.draws add.argv session.disk
  unfold addStep at stepped
  cases ran : add.exec crates session.disk with
  | mk result disk =>
    rw [ran] at stepped
    rw [show main crates add.draws add.argv session.disk = (result, disk) from ran] at atomic
    cases result with
    | ok value =>
      right
      rw [add.exec_eq] at ran
      obtain ⟨pass, newp, path, v, idx, v', table, passGiven, newpGiven, fileGiven, opened, added, held, written⟩ :=
        addCommand_ok crates ran
      refine ⟨pass, newp, path, v, idx, v', table, Invocation.pass_mem passGiven.1, Invocation.newp_mem newpGiven.1,
        opened, added, held, ?_⟩
      simp only [fileGiven.1, newpGiven.1, Option.some.injEq, Option.toList_some] at stepped
      by_cases same : path = file
      · rw [if_pos same] at stepped
        cases stepped
        exact ⟨written, (if_pos same).symm⟩
      · rw [if_neg same] at stepped
        cases stepped
        exact ⟨written, (if_neg same).symm⟩
    | err error =>
      left
      cases stepped
      rcases atomic with ⟨_, impossible⟩ | same
      · cases impossible
      · rw [show disk = session.disk from same]
    | panic =>
      left
      cases stepped
      rcases atomic with ⟨_, impossible⟩ | same
      · cases impossible
      · rw [show disk = session.disk from same]

/-- The file is a table of `master` with an enabled slot for each member, in order. -/
structure Kept (file : Str) (master : U8Array MASTER_LEN) (used : List Str) (session : Session)
    (table : KeySlotTable) : Prop where
  stored : session.disk.files file = .ok (vaultFile (table.toBytes crates) table.headerSalt)
  owned : KeySlotTable.Owned crates master session.members table
  enabled : ∀ slot ∈ table.slots, slot.isEnabled = true
  inUse : session.members ⊆ used

namespace Kept
variable {crates} {file : Str} {master : U8Array MASTER_LEN} {used : List Str} {session next : Session}
  {table : KeySlotTable}

theorem storedTable_eq (kept : Kept crates file master used session table) :
    storedTable crates file session.disk = some table :=
  storedTable_of_file kept.owned.small kept.stored

theorem openVault_ok (kept : Kept crates file master used session table) (opens : crates.OpensSealed)
    (rejects : ∀ slot ∈ table.slots, RejectsOtherKeys crates used slot) {pass : Str} (passUsed : pass ∈ used)
    {v : AegisVault} {after : Disk} (opened : openVault crates file pass session.disk = (.ok v, after)) :
    v.master = AegisKey.new32 master ∧ v.slots = some table := by
  obtain ⟨_, slotBytes, salt, ignored, content, _, opening⟩ := (openVault_eq_ok_iff crates _ _ _).mp opened
  rw [kept.stored, Except.ok.injEq] at content
  obtain ⟨rfl, rfl⟩ := vaultFile_inj content
  obtain ⟨found, raw, hierarchy, recovered, _, rfl⟩ := AegisVault.openFromSlots_eq_ok_iff.mp opening
  obtain ⟨rfl, rfl, _⟩ := (recovered_iff kept.owned opens kept.inUse passUsed rejects).mp recovered
  exact ⟨rfl, rfl⟩

theorem step (kept : Kept crates file master used session table) (opens : crates.OpensSealed)
    (rejects : ∀ slot ∈ table.slots, RejectsOtherKeys crates used slot) {add : Invocation (ascii "add")}
    (named : add.passphrases ⊆ used) (stepped : addStep crates file session add = some next) :
    ∃ now, Kept crates file master used next now := by
  rcases addStep_cases crates stepped with
    rfl | ⟨pass, newp, path, v, idx, v', grown, passNamed, newpNamed, opened, added, held, written, members⟩
  · exact ⟨table, kept⟩
  by_cases same : path = file
  · subst same
    obtain ⟨mastered, slots⟩ := kept.openVault_ok opens rejects (named passNamed) opened
    obtain ⟨raw, found, ⟨old, slot, holds, room, _, created, rfl⟩ | ⟨_, empty, _⟩⟩ := AegisVault.addSlot_ok added
    · rw [slots] at holds
      cases holds
      cases held
      rw [mastered] at found
      have sameMaster := AegisKey.new32_injective found
      subst sameMaster
      rw [if_pos rfl] at members
      refine ⟨{ table with slots := table.slots ++ [slot] }, ?_, ?_, ?_, ?_⟩
      · rw [written, Disk.write_same]
      · rw [members]
        exact kept.owned.append room created
      · intro other member
        rcases List.mem_append.mp member with before | new
        · exact kept.enabled other before
        · rw [List.mem_singleton.mp new]
          exact KeySlot.create_enabled crates created
      · rw [members]
        apply List.append_subset.mpr
        exact ⟨kept.inUse, List.cons_subset.mpr ⟨named newpNamed, List.nil_subset used⟩⟩
    · rw [slots] at empty
      cases empty
  · rw [if_neg same] at members
    refine ⟨table, ?_, members ▸ kept.owned, kept.enabled, members ▸ kept.inUse⟩
    rw [written, Disk.write_other _ (Ne.symm same)]
    exact kept.stored

/-- The file keeps its members' access along every run of `add` processes. -/
theorem visited (kept : Kept crates file master used session table) (opens : crates.OpensSealed)
    {adds : List (Invocation (ascii "add"))} (named : adds.flatMap Invocation.passphrases ⊆ used)
    (rejects : ∀ state found, Visits (addStep crates file) session adds state →
      storedTable crates file state.disk = some found → ∀ slot ∈ found.slots, RejectsOtherKeys crates used slot)
    {state : Session} (visits : Visits (addStep crates file) session adds state) :
    ∃ now, Kept crates file master used state now := by
  apply visits_induction (fun state => ∃ now, Kept crates file master used state now) _ _ visits
  · exact ⟨table, kept⟩
  · intro before add after taken invariant stepped
    obtain ⟨now, keptNow⟩ := invariant
    apply keptNow.step opens (rejects before now taken.visits keptNow.storedTable_eq) _ stepped
    intro passphrase member
    exact named (List.mem_flatMap.mpr ⟨add, taken.mem, member⟩)

theorem member_opens (kept : Kept crates file master used session table) (opens : crates.OpensSealed)
    (rejects : ∀ slot ∈ table.slots, RejectsOtherKeys crates used slot) {ignored : AegisVault}
    (unlocked : AegisVault.unlock crates (ascii "ignored") MASTER_SALT MEM_KIB ITERS = .ok ignored)
    {hierarchy : KeyHierarchy} (derived : KeyHierarchy.fromMaster crates master.val = .ok hierarchy)
    {pass : Str} (member : pass ∈ session.members) :
    openVault crates file pass session.disk = (.ok ⟨AegisKey.new32 master, hierarchy, some table⟩, session.disk) := by
  obtain ⟨seat, at_seat⟩ := List.getElem?_of_mem member
  have inside : seat < table.slots.length := by
    rw [← kept.owned.count]
    exact (List.getElem?_eq_some_iff.mp at_seat).1
  have found := List.getElem?_eq_getElem inside
  have enabled := kept.enabled _ (List.getElem_mem inside)
  have wraps := kept.owned.wraps seat _ pass found enabled at_seat
  have opened : ∃ answer, table.unsealWith crates pass = .ok answer := by
    apply (KeySlotTable.unsealWith_isOk_iff crates table pass).mpr
    exact ⟨_, List.getElem_mem inside, enabled, _, KeySlot.unsealSlot_of_wraps crates opens wraps⟩
  have recovered := (recovered_iff kept.owned opens kept.inUse (kept.inUse member) rejects).mpr ⟨rfl, rfl, opened⟩
  apply (openVault_eq_ok_iff crates _ _ _).mpr
  refine ⟨rfl, _, _, ignored, kept.stored, unlocked, ?_⟩
  exact AegisVault.openFromSlots_eq_ok_iff.mpr ⟨table, master, hierarchy, recovered, derived, rfl⟩

theorem of_init {initial : Invocation (ascii "init")} {disk after : Disk} {pass : Str}
    (made : initial.exec crates disk = (.ok (), after)) (passGiven : initial.args (ascii "p") = some pass)
    (fileGiven : initial.args (ascii "o") = some file) (passUsed : pass ∈ used) :
    ∃ master table, Kept crates file master used ⟨after, [pass]⟩ table := by
  rw [initial.exec_eq] at made
  obtain ⟨given, out, v, v', table, givenPass, givenOut, _, sealing, held, written⟩ := initCommand_ok crates made
  rw [givenPass.1, Option.some.injEq] at passGiven
  rw [givenOut.1, Option.some.injEq] at fileGiven
  subst passGiven fileGiven
  obtain ⟨raw, first, _, created, rfl⟩ := AegisVault.sealSlots_ok sealing
  cases held
  have named : [given] ⊆ used := List.cons_subset.mpr ⟨passUsed, List.nil_subset used⟩
  refine ⟨raw, table, ?_, KeySlotTable.Owned.of_newInitial created, ?_, named⟩
  · rw [written, Disk.write_same]
  · intro slot member
    obtain ⟨only, slotMade, rfl⟩ := (KeySlotTable.newInitial_eq_ok_iff crates _ _ _ _).mp created
    rw [List.mem_singleton.mp member]
    exact KeySlot.create_enabled crates slotMade

end Kept

theorem visited_unchanged {file other : Str} {session state : Session} {adds : List (Invocation (ascii "add"))}
    {bytes : List UInt8} (content : session.disk.files other = .ok bytes)
    (noVault : ∀ slotBytes salt, bytes ≠ vaultFile slotBytes salt)
    (visits : Visits (addStep crates file) session adds state) :
    state.disk.files other = .ok bytes ∧ state.disk.refusals = session.disk.refusals := by
  apply visits_induction (fun state => state.disk.files other = .ok bytes ∧
    state.disk.refusals = session.disk.refusals) _ _ visits
  · exact ⟨content, rfl⟩
  · intro before add after _ invariant stepped
    rcases addStep_cases crates stepped with rfl | ⟨pass, _, path, v, _, _, _, _, _, opened, _, _, written, _⟩
    · exact invariant
    have differ : other ≠ path := by
      intro same
      obtain ⟨_, slotBytes, salt, _, found, _⟩ := (openVault_eq_ok_iff crates _ _ _).mp opened
      rw [← same, invariant.1, Except.ok.injEq] at found
      exact noVault slotBytes salt found
    rw [written, Disk.write_other _ differ, Disk.write_refusals]
    exact invariant

end SoteriaAegis.Cli
