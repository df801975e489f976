import SoteriaAegis.Cli.Adding
import SoteriaAegis.Cli.EndToEnd

/-! Many `add` processes on one vault file, their two steps in any order. Nobody who had access
loses it. A new member is lost when a process writes back a file that it read before the
member was added. -/

namespace SoteriaAegis.Cli
open Rust Crypto Slots Vault

inductive Phase where
  | ready
  | holding (held : Held)
  | finished (result : Outcome Failure Unit)
  deriving DecidableEq

/-- The disk, and how far each process has got. -/
structure Race (ι : Type) where
  disk : Disk
  phase : ι → Phase

variable {ι : Type}

/-- What one more slot, made by a process of the schedule for a verified master, preserves. -/
def Grows (crates : Crates) (adds : ι → Invocation (ascii "add")) (schedule : List ι)
    (Good : KeySlotTable → Prop) : Prop :=
  ∀ i ∈ schedule, ∀ table raw newp slot, Good table → table.slots.length < MAX_SLOTS →
    volumeVerifier crates raw = table.verifier → (adds i).args (ascii "n") = some newp →
    KeySlot.create crates raw newp 64 3 (adds i).draws.table.slot = .ok slot →
    Good { table with slots := table.slots ++ [slot] }

/-- The stored table and every table held are good, but for the processes that are not going to write. -/
structure AllGood (crates : Crates) (file : Str) (adds : ι → Invocation (ascii "add")) (Good : KeySlotTable → Prop)
    (idle : ι → Prop) (race : Race ι) : Prop where
  stored : ∃ table, storedTable crates file race.disk = some table ∧ Good table
  held : ∀ i held, race.phase i = .holding held → ¬idle i → held.file = file ∧
    (adds i).args (ascii "n") = some held.newp ∧
    ∀ table, KeySlotTable.fromBytes crates held.slotBytes held.salt = .ok table → Good table

variable {crates : Crates} {adds : ι → Invocation (ascii "add")} {race next start final : Race ι} {i : ι}
  {file : Str} {Good : KeySlotTable → Prop} {idle : ι → Prop} {schedule : List ι}

theorem AllGood.fresh (fresh : ∀ i, race.phase i = .ready) {table : KeySlotTable}
    (stored : storedTable crates file race.disk = some table) (good : Good table) :
    AllGood crates file adds Good idle race := by
  refine ⟨⟨table, stored, good⟩, fun i held holding => ?_⟩
  rw [fresh i] at holding
  cases holding

def Grants (crates : Crates) (passphrase : Str) (table : KeySlotTable) : Prop :=
  ∃ slot ∈ table.slots, slot.isEnabled = true ∧ ∃ raw, Wraps crates slot passphrase raw

theorem Grants.append {passphrase : Str} {table : KeySlotTable} (grants : Grants crates passphrase table)
    (slot : KeySlot) : Grants crates passphrase { table with slots := table.slots ++ [slot] } := by
  obtain ⟨old, member, holds⟩ := grants
  exact ⟨old, List.mem_append_left _ member, holds⟩

theorem Grants.of_created {passphrase : Str} {raw : U8Array MASTER_LEN} {mCost tCost : UInt32} {draws : SlotDraws}
    {slot : KeySlot} (created : KeySlot.create crates raw passphrase mCost tCost draws = .ok slot)
    (table : KeySlotTable) : Grants crates passphrase { table with slots := table.slots ++ [slot] } :=
  ⟨slot, List.mem_append_right _ (List.mem_singleton_self slot), KeySlot.create_enabled crates created, raw,
    ((KeySlot.create_eq_ok_iff crates _ _ _ _ _ _).mp created).1⟩

theorem Grants.openVault (opens : crates.OpensSealed) (expands : crates.ExpandsShort) {used : List Str}
    {verifier : U8Array 32} {table : KeySlotTable} {passphrase : Str} (grants : Grants crates passphrase table)
    (bound : Bound crates used verifier table) (passphraseUsed : passphrase ∈ used)
    (rejects : ∀ slot ∈ table.slots, RejectsOtherKeys crates used slot) {disk : Disk}
    (stored : storedTable crates file disk = some table) {ignored : AegisVault}
    (unlocked : AegisVault.unlock crates (ascii "ignored") MASTER_SALT MEM_KIB ITERS = .ok ignored) :
    ∃ v, Cli.openVault crates file passphrase disk = (.ok v, disk) := by
  obtain ⟨slot, member, enabled, raw, wraps⟩ := grants
  have opened := KeySlot.unsealSlot_of_wraps crates opens wraps
  obtain ⟨⟨idx, found⟩, unsealed⟩ :=
    (KeySlotTable.unsealWith_isOk_iff crates table passphrase).mpr ⟨slot, member, enabled, _, opened⟩
  obtain ⟨master, rfl, accepted⟩ := bound.unsealWith_verified opens rejects passphraseUsed unsealed
  obtain ⟨hierarchy, derived⟩ := KeyHierarchy.fromMaster_total crates expands master.val
  exact ⟨_, openVault_of_stored stored unlocked unsealed accepted derived⟩

theorem grows_extends (first : KeySlotTable) :
    Grows crates adds schedule fun table => Extends first table ∧ table.slots.length < 256 := by
  intro i _ table raw newp slot good room _ _ _
  exact ⟨good.1.append slot, table.append_countable room slot⟩

theorem grows_bound {used : List Str} {verifier : U8Array 32}
    (named : (schedule.flatMap fun i => (adds i).passphrases) ⊆ used) :
    Grows crates adds schedule (Bound crates used verifier) := by
  intro i scheduled table raw newp slot bound room accepted given created
  have added : KeySlotTable.addSlot crates raw newp (adds i).draws.table.slot table =
      (.ok table.slots.length, { table with slots := table.slots ++ [slot] }) := by
    rw [KeySlotTable.addSlot_eq, if_neg (Nat.not_le.mpr room), created]
  have stepped : TableCall.step crates table (.addSlot raw newp (adds i).draws.table.slot) =
      some { table with slots := table.slots ++ [slot] } := by
    simp only [TableCall.step, Method.after, added]
  refine bound.step ?_ ?_ stepped
  · have passphraseUsed := named (List.mem_flatMap.mpr ⟨i, scheduled, Invocation.newp_mem given⟩)
    exact List.cons_subset.mpr ⟨passphraseUsed, List.nil_subset used⟩
  · intro master passphrase draws same _
    cases same
    exact accepted.trans bound.same

theorem grows_grants {passphrase : Str} : Grows crates adds schedule (Grants crates passphrase) :=
  fun _ _ _ _ _ slot grants _ _ _ _ => grants.append slot

theorem Grows.and {Other : KeySlotTable → Prop} (grows : Grows crates adds schedule Good)
    (others : Grows crates adds schedule Other) : Grows crates adds schedule fun table => Good table ∧ Other table :=
  fun i member table raw newp slot both room accepted given created =>
    ⟨grows i member table raw newp slot both.1 room accepted given created,
      others i member table raw newp slot both.2 room accepted given created⟩

variable [DecidableEq ι]

def Race.move (race : Race ι) (i : ι) (disk : Disk) (phase : Phase) : Race ι :=
  ⟨disk, Function.update race.phase i phase⟩

/-- A process picked for the first time reads, the next time it writes and ends. -/
def raceStep (crates : Crates) (adds : ι → Invocation (ascii "add")) (race : Race ι) (i : ι) : Option (Race ι) :=
  match race.phase i with
  | .ready =>
    match addRead (adds i).args race.disk with
    | (.ok held, disk) => some (race.move i disk (.holding held))
    | (.err failure, disk) => some (race.move i disk (.finished (.err failure)))
    | (.panic, disk) => some (race.move i disk (.finished .panic))
  | .holding held =>
    let (result, disk) := addCommit crates held (adds i).draws race.disk
    some (race.move i disk (.finished result))
  | .finished _ => some race

/-- No process that had read the file when process `i` wrote it succeeds in writing it afterwards. -/
def Undisturbed (crates : Crates) (adds : ι → Invocation (ascii "add")) (start : Race ι) (schedule : List ι)
    (final : Race ι) (i : ι) : Prop :=
  ∀ before after mid held, schedule = before ++ i :: after → run (raceStep crates adds) start before = some mid →
    mid.phase i = .holding held → ∀ j ≠ i, ∀ other, mid.phase j = .holding other →
    final.phase j ≠ .finished (.ok ())

@[simp] theorem Race.move_disk (race : Race ι) (i : ι) (disk : Disk) (phase : Phase) :
    (race.move i disk phase).disk = disk := rfl

@[simp] theorem Race.move_same (race : Race ι) (i : ι) (disk : Disk) (phase : Phase) :
    (race.move i disk phase).phase i = phase := by
  simp only [Race.move, Function.update_self]

theorem Race.move_other (race : Race ι) {i j : ι} (differ : j ≠ i) (disk : Disk) (phase : Phase) :
    (race.move i disk phase).phase j = race.phase j := by
  simp only [Race.move, Function.update_of_ne differ]

theorem raceStep_cases (stepped : raceStep crates adds race i = some next) :
    next = race ∨
      (∃ held, race.phase i = .ready ∧ addRead (adds i).args race.disk = (.ok held, race.disk) ∧
        next = race.move i race.disk (.holding held)) ∨
      (∃ result, (∀ ended, race.phase i ≠ .finished ended) ∧ result ≠ .ok () ∧
        next = race.move i race.disk (.finished result)) ∨
      ∃ held bytes salt, race.phase i = .holding held ∧ addCompute crates held (adds i).draws = .ok (bytes, salt) ∧
        next = race.move i (race.disk.write held.file (vaultFile bytes salt)) (.finished (.ok ())) := by
  unfold raceStep at stepped
  cases phase : race.phase i with
  | ready =>
    have unchanged := addRead_reads (adds i).args race.disk
    simp only [phase] at stepped
    cases read : addRead (adds i).args race.disk with
    | mk result disk =>
      rw [read] at stepped unchanged
      subst unchanged
      cases result with
      | ok held =>
        cases stepped
        exact Or.inr (Or.inl ⟨held, rfl, rfl, rfl⟩)
      | err failure =>
        cases stepped
        exact Or.inr (Or.inr (Or.inl ⟨.err failure, by simp, by simp, rfl⟩))
      | panic =>
        cases stepped
        exact Or.inr (Or.inr (Or.inl ⟨.panic, by simp, by simp, rfl⟩))
  | holding held =>
    simp only [phase] at stepped
    cases committed : addCommit crates held (adds i).draws race.disk with
    | mk result disk =>
      rw [committed] at stepped
      cases stepped
      rcases addCommit_cases committed with ⟨bytes, salt, rfl, computed, _, rfl⟩ | ⟨failed, rfl⟩
      · exact Or.inr (Or.inr (Or.inr ⟨held, bytes, salt, rfl, computed, rfl⟩))
      · exact Or.inr (Or.inr (Or.inl ⟨result, by simp, failed, rfl⟩))
  | finished result =>
    rw [phase] at stepped
    cases stepped
    exact Or.inl rfl

theorem ended_alone {disk : Disk} {result : Outcome Failure Unit}
    (first : raceStep crates adds race i = some (race.move i disk (.finished result))) :
    ∃ last, run (raceStep crates adds) race [i, i] = some last ∧ last.disk = disk ∧
      last.phase i = .finished result := by
  refine ⟨race.move i disk (.finished result), ?_, rfl, Race.move_same _ _ _ _⟩
  rw [run_cons, first, Option.bind_some, run_cons]
  simp only [raceStep, Race.move_same, Option.bind_some, run_nil]

theorem race_alone (fresh : race.phase i = .ready) {result : Outcome Failure Unit} {disk : Disk}
    (ran : (adds i).exec crates race.disk = (result, disk)) :
    ∃ last, run (raceStep crates adds) race [i, i] = some last ∧ last.disk = disk ∧
      last.phase i = .finished result := by
  rw [(adds i).exec_eq] at ran
  have steps : (addRead (adds i).args >>= fun held => addCommit crates held (adds i).draws) race.disk =
      (result, disk) := by
    rw [← addCommand_eq]
    exact ran
  rw [Method.bind_apply] at steps
  cases read : addRead (adds i).args race.disk with
  | mk answer after =>
    rw [read] at steps
    cases answer with
    | ok held =>
      have first : raceStep crates adds race i = some (race.move i after (.holding held)) := by
        simp only [raceStep, fresh, read]
      have second : raceStep crates adds (race.move i after (.holding held)) i =
          some ((race.move i after (.holding held)).move i disk (.finished result)) := by
        simp only [raceStep, Race.move_same, Race.move_disk, show addCommit crates held _ after = _ from steps]
      refine ⟨(race.move i after (.holding held)).move i disk (.finished result), ?_, rfl, Race.move_same _ _ _ _⟩
      rw [run_cons, first, Option.bind_some, run_cons, second]
      rfl
    | err failure =>
      cases steps
      exact ended_alone (by simp only [raceStep, fresh, read])
    | panic =>
      cases steps
      exact ended_alone (by simp only [raceStep, fresh, read])

theorem raceStep_other {j : ι} (differ : j ≠ i) (stepped : raceStep crates adds race i = some next) :
    next.phase j = race.phase j := by
  rcases raceStep_cases stepped with rfl | ⟨_, _, _, rfl⟩ | ⟨_, _, _, rfl⟩ | ⟨_, _, _, _, _, rfl⟩
  · rfl
  · exact Race.move_other _ differ _ _
  · exact Race.move_other _ differ _ _
  · exact Race.move_other _ differ _ _

theorem finished_stays {j : ι} {result : Outcome Failure Unit} (ended : race.phase j = .finished result)
    (stepped : raceStep crates adds race i = some next) : next.phase j = .finished result := by
  by_cases same : j = i
  · subst same
    rw [raceStep, ended] at stepped
    cases stepped
    exact ended
  · rw [raceStep_other same stepped, ended]

theorem run_finished_stays {j : ι} {result : Outcome Failure Unit} (ended : race.phase j = .finished result)
    {schedule : List ι} (ran : run (raceStep crates adds) race schedule = some final) :
    final.phase j = .finished result :=
  run_invariant (fun race => race.phase j = .finished result) (fun _ _ _ ended stepped => finished_stays ended stepped)
    ended ran

theorem AllGood.move (good : AllGood crates file adds Good idle race) {phase : Phase}
    (holds : ∀ held, phase = .holding held → ¬idle i → held.file = file ∧
      (adds i).args (ascii "n") = some held.newp ∧
      ∀ table, KeySlotTable.fromBytes crates held.slotBytes held.salt = .ok table → Good table) :
    AllGood crates file adds Good idle (race.move i race.disk phase) := by
  refine ⟨good.stored, fun j held holding busy => ?_⟩
  by_cases same : j = i
  · subst same
    rw [Race.move_same] at holding
    exact holds held holding busy
  · rw [Race.move_other _ same] at holding
    exact good.held j held holding busy

/-- When a process has written, nothing counts as held once those who hold an older file are idle. -/
theorem AllGood.written {table : KeySlotTable} {disk : Disk} (stored : storedTable crates file disk = some table)
    (good : Good table) (result : Outcome Failure Unit) :
    AllGood crates file adds Good (fun j => j ≠ i ∧ ∃ other, race.phase j = .holding other)
      (race.move i disk (.finished result)) := by
  refine ⟨⟨table, stored, good⟩, fun j other holding busy => ?_⟩
  by_cases same : j = i
  · rw [same, Race.move_same] at holding
    cases holding
  · rw [Race.move_other _ same] at holding
    exact absurd ⟨same, other, holding⟩ busy

theorem AllGood.step (good : AllGood crates file adds Good idle race) (grows : Grows crates adds schedule Good)
    (target : ∀ i, (adds i).args (ascii "f") = some file) (scheduled : i ∈ schedule)
    (stepped : raceStep crates adds race i = some next) (quiet : idle i → next.phase i ≠ .finished (.ok ())) :
    AllGood crates file adds Good idle next := by
  rcases raceStep_cases stepped with
    rfl | ⟨held, _, read, rfl⟩ | ⟨result, _, _, rfl⟩ | ⟨held, bytes, salt, holding, computed, rfl⟩
  · exact good
  · obtain ⟨_, _, newpGiven, fileGiven, content⟩ := addRead_ok read
    refine good.move fun other same _ => ?_
    cases same
    rw [target i, Option.some.injEq] at fileGiven
    refine ⟨fileGiven.symm, newpGiven, fun table parsed => ?_⟩
    obtain ⟨found, stored, goodFound⟩ := good.stored
    have here := storedTable_eq_some_iff.mpr ⟨held.slotBytes, held.salt, content, parsed⟩
    rw [← fileGiven, stored, Option.some.injEq] at here
    exact here ▸ goodFound
  · exact good.move fun held impossible => by cases impossible
  · have busy : ¬idle i := fun rests => quiet rests (Race.move_same _ _ _ _)
    obtain ⟨sameFile, newpGiven, goodHeld⟩ := good.held i held holding busy
    obtain ⟨table, raw, slot, recovered, room, created, stored⟩ := addCompute_stored computed
    have grown := grows i scheduled table raw held.newp slot (goodHeld table recovered.read) room recovered.checked
      newpGiven created
    refine ⟨⟨_, sameFile ▸ stored race.disk, grown⟩, fun j other otherHolding otherBusy => ?_⟩
    · have differ : j ≠ i := by
        intro same
        rw [same, Race.move_same] at otherHolding
        cases otherHolding
      rw [Race.move_other _ differ] at otherHolding
      exact good.held j other otherHolding otherBusy

theorem AllGood.run (good : AllGood crates file adds Good idle race) (grows : Grows crates adds schedule Good)
    (target : ∀ i, (adds i).args (ascii "f") = some file) {rest : List ι} (scheduled : rest ⊆ schedule)
    (ran : run (raceStep crates adds) race rest = some final)
    (quiet : ∀ i, idle i → final.phase i ≠ .finished (.ok ())) : AllGood crates file adds Good idle final := by
  induction rest generalizing race with
  | nil =>
    cases ran
    exact good
  | cons i rest ih =>
    rw [run_cons] at ran
    obtain ⟨next, stepped, ranOn⟩ := Option.bind_eq_some_iff.mp ran
    obtain ⟨here, later⟩ := List.cons_subset.mp scheduled
    refine ih (good.step grows target here stepped ?_) later ranOn
    intro rests done
    exact quiet i rests (run_finished_stays done ranOn)

theorem write_found (unfinished : race.phase i ≠ .finished (.ok ()))
    (ran : run (raceStep crates adds) race schedule = some final) (done : final.phase i = .finished (.ok ())) :
    ∃ before after mid held bytes salt, schedule = before ++ i :: after ∧
      run (raceStep crates adds) race before = some mid ∧ mid.phase i = .holding held ∧
      addCompute crates held (adds i).draws = .ok (bytes, salt) ∧
      run (raceStep crates adds)
        (mid.move i (mid.disk.write held.file (vaultFile bytes salt)) (.finished (.ok ()))) after = some final := by
  induction schedule generalizing race with
  | nil =>
    cases ran
    exact absurd done unfinished
  | cons k rest ih =>
    rw [run_cons] at ran
    obtain ⟨next, stepped, ranOn⟩ := Option.bind_eq_some_iff.mp ran
    by_cases written : next.phase i = .finished (.ok ())
    · have picked : k = i := by
        by_contra other
        rw [raceStep_other (Ne.symm other) stepped] at written
        exact unfinished written
      subst picked
      rcases raceStep_cases stepped with
        rfl | ⟨_, _, _, rfl⟩ | ⟨_, _, failed, rfl⟩ | ⟨held, bytes, salt, holding, computed, rfl⟩
      · exact absurd written unfinished
      · rw [Race.move_same] at written
        cases written
      · rw [Race.move_same] at written
        cases written
        exact absurd rfl failed
      · exact ⟨[], rest, race, held, bytes, salt, rfl, rfl, holding, computed, ranOn⟩
    · obtain ⟨before, after, mid, held, bytes, salt, rfl, ranBefore, holding, computed, ranAfter⟩ :=
        ih written ranOn
      refine ⟨k :: before, after, mid, held, bytes, salt, rfl, ?_, holding, computed, ranAfter⟩
      rw [run_cons, stepped]
      exact ranBefore

theorem old_member_opens (target : ∀ i, (adds i).args (ascii "f") = some file) (fresh : ∀ i, start.phase i = .ready)
    (ran : run (raceStep crates adds) start schedule = some final) {pass : Str} {v : AegisVault}
    (opened : openVault crates file pass start.disk = (.ok v, start.disk)) :
    ∃ v', openVault crates file pass final.disk = (.ok v', final.disk) ∧ v'.master = v.master := by
  obtain ⟨_, table, _, _, stored, _⟩ := openVault_stored opened
  obtain ⟨_, _, _, parsed⟩ := storedTable_eq_some_iff.mp stored
  have small := ((KeySlotTable.fromBytes_eq_ok_iff crates _ _ _).mp parsed).2.1
  have good : AllGood crates file adds (fun found => Extends table found ∧ found.slots.length < 256)
      (fun _ => False) start := AllGood.fresh fresh stored ⟨Extends.refl table, small⟩
  obtain ⟨found, storedFound, grown, _⟩ :=
    (good.run (grows_extends table) target (List.Subset.refl _) ran fun _ impossible => impossible.elim).stored
  exact ⟨_, grown.openVault stored storedFound opened, rfl⟩

theorem new_member_granted (target : ∀ i, (adds i).args (ascii "f") = some file)
    (fresh : ∀ i, start.phase i = .ready) (ran : run (raceStep crates adds) start schedule = some final)
    {table : KeySlotTable} {used : List Str} {verifier : U8Array 32}
    (stored : storedTable crates file start.disk = some table) (bound : Bound crates used verifier table)
    (named : (schedule.flatMap fun i => (adds i).passphrases) ⊆ used) {newp : Str}
    (given : (adds i).args (ascii "n") = some newp) (done : final.phase i = .finished (.ok ()))
    (undisturbed : Undisturbed crates adds start schedule final i) :
    newp ∈ used ∧ (∃ held answer, addCompute crates held (adds i).draws = .ok answer) ∧
      ∃ found, storedTable crates file final.disk = some found ∧ Bound crates used verifier found ∧
        Grants crates newp found := by
  have unfinished : start.phase i ≠ .finished (.ok ()) := by
    rw [fresh i]
    nofun
  obtain ⟨before, after, mid, held, bytes, salt, split, ranBefore, holding, computed, ranAfter⟩ :=
    write_found unfinished ran done
  have early : before ⊆ schedule := split ▸ List.subset_append_left _ _
  have late : after ⊆ schedule :=
    fun j member => split ▸ List.mem_append_right _ (List.mem_cons_of_mem _ member)
  have scheduled : i ∈ schedule := split ▸ List.mem_append_right _ List.mem_cons_self
  -- up to the write the file and every copy of it are bound to the master
  have good : AllGood crates file adds (Bound crates used verifier) (fun _ => False) start :=
    AllGood.fresh fresh stored bound
  have goodMid := good.run (grows_bound named) target early ranBefore fun _ impossible => impossible.elim
  obtain ⟨sameFile, newpGiven, goodHeld⟩ := goodMid.held i held holding id
  rw [given, Option.some.injEq] at newpGiven
  subst newpGiven
  obtain ⟨read, raw, slot, recovered, room, created, storedNow⟩ := addCompute_stored computed
  have boundNow := grows_bound named i scheduled read raw held.newp slot (goodHeld read recovered.read) room
    recovered.checked given created
  have granted : Grants crates held.newp { read with slots := read.slots ++ [slot] } := Grants.of_created created read
  -- from the write on the new slot is in every copy that is still going to be written
  have goodNow : AllGood crates file adds
      (fun found => Bound crates used verifier found ∧ Grants crates held.newp found)
      (fun j => j ≠ i ∧ ∃ other, mid.phase j = .holding other)
      (mid.move i (mid.disk.write held.file (vaultFile bytes salt)) (.finished (.ok ()))) :=
    AllGood.written (sameFile ▸ storedNow mid.disk) ⟨boundNow, granted⟩ _
  have goodFinal := goodNow.run ((grows_bound named).and grows_grants) target late ranAfter
    fun j ⟨differs, other, waiting⟩ =>
      undisturbed before after mid held split ranBefore holding j differs other waiting
  exact ⟨named (List.mem_flatMap.mpr ⟨i, scheduled, Invocation.newp_mem given⟩), ⟨held, _, computed⟩, goodFinal.stored⟩

/-- Whoever could open the file before can open it afterwards, in every interleaving. A new
member can too, once no process that read the file before it was written for that member
succeeds in writing it again. -/
theorem add_race (opens : crates.OpensSealed) (expands : crates.ExpandsShort)
    (adds : ι → Invocation (ascii "add")) (file : Str) (target : ∀ i, (adds i).args (ascii "f") = some file)
    (start : Race ι) (fresh : ∀ i, start.phase i = .ready) (schedule : List ι) (final : Race ι)
    (ran : run (raceStep crates adds) start schedule = some final) :
    (∀ pass v, openVault crates file pass start.disk = (.ok v, start.disk) →
      ∃ v', openVault crates file pass final.disk = (.ok v', final.disk) ∧ v'.master = v.master) ∧
    ∀ table used verifier, storedTable crates file start.disk = some table → Bound crates used verifier table →
      (schedule.flatMap fun i => (adds i).passphrases) ⊆ used →
      (∀ found, storedTable crates file final.disk = some found →
        ∀ slot ∈ found.slots, RejectsOtherKeys crates used slot) →
      ∀ i newp, (adds i).args (ascii "n") = some newp → final.phase i = .finished (.ok ()) →
        Undisturbed crates adds start schedule final i →
        ∃ v', openVault crates file newp final.disk = (.ok v', final.disk) := by
  refine ⟨fun pass v opened => old_member_opens target fresh ran opened, ?_⟩
  intro table used verifier stored bound named rejects i newp given done undisturbed
  obtain ⟨passphraseUsed, ⟨held, answer, computed⟩, found, storedFound, boundFound, grants⟩ :=
    new_member_granted target fresh ran stored bound named given done undisturbed
  obtain ⟨ignored, unlocked⟩ := addCompute_unlocked computed
  exact grants.openVault opens expands boundFound passphraseUsed (rejects found storedFound) storedFound unlocked

theorem undisturbed_of_exclusive
    (exclusive : ∀ mid, Visits (raceStep crates adds) start schedule mid → ∀ held other j,
      mid.phase i = .holding held → mid.phase j = .holding other → j = i) :
    Undisturbed crates adds start schedule final i := by
  intro before after mid held split ranBefore holding j differs other waiting
  have visits : Visits (raceStep crates adds) start schedule mid :=
    ⟨before, split ▸ List.prefix_append before _, ranBefore⟩
  exact absurd (exclusive mid visits held other j holding waiting) differs

theorem init_bound {initial : Invocation (ascii "init")} {disk after : Disk} {pass : Str} {used : List Str}
    (made : initial.exec crates disk = (.ok (), after)) (passGiven : initial.args (ascii "p") = some pass)
    (fileGiven : initial.args (ascii "o") = some file) (passUsed : pass ∈ used) :
    ∃ table verifier, storedTable crates file after = some table ∧ Bound crates used verifier table := by
  rw [initial.exec_eq] at made
  obtain ⟨given, out, v, v', table, givenPass, givenOut, _, sealing, held, rfl⟩ := initCommand_ok crates made
  rw [givenPass.1, Option.some.injEq] at passGiven
  rw [givenOut.1, Option.some.injEq] at fileGiven
  subst passGiven fileGiven
  obtain ⟨raw, first, _, created, rfl⟩ := AegisVault.sealSlots_ok sealing
  cases held
  refine ⟨table, _, storedTable_write ?_, Bound.of_newInitial passUsed created⟩
  rw [KeySlotTable.newInitial_length crates created]
  decide

def addDave : Invocation (ascii "add") :=
  .ofFlags _ [ascii "-p", ascii "alice", ascii "-n", ascii "dave", ascii "-f", ascii "vault"]

def addBobAndDave (dave : Bool) : Invocation (ascii "add") := if dave then addDave else addBob

def raceStart : Race Bool := ⟨(initAlice.exec checksumCrates letterDisk).2, fun _ => .ready⟩

def Race.exclusive (race : Race Bool) : Bool :=
  match race.phase false, race.phase true with
  | .holding _, .holding _ => false
  | _, _ => true

theorem Race.exclusive_spec {race : Race Bool} (exclusive : race.exclusive = true) {held other : Held} {j : Bool}
    (holding : race.phase false = .holding held) (waiting : race.phase j = .holding other) : j = false := by
  cases j with
  | false => rfl
  | true =>
    rw [Race.exclusive, holding, waiting] at exclusive
    cases exclusive

def inTurn : List Bool := [false, false, true, true]

theorem add_race_inTurn : ∃ final v', run (raceStep checksumCrates addBobAndDave) raceStart inTurn = some final ∧
    final.phase true = .finished (.ok ()) ∧
    openVault checksumCrates (ascii "vault") (ascii "bob") final.disk = (.ok v', final.disk) := by
  let used : List Str := ascii "alice" :: inTurn.flatMap fun i => (addBobAndDave i).passphrases
  have initialized : (initAlice.exec checksumCrates letterDisk).1 = .ok () := by decide +kernel
  obtain ⟨table, verifier, stored, bound⟩ :=
    init_bound (Method.eq_of_fst _ initialized) rfl rfl (List.mem_cons_self : ascii "alice" ∈ used)
  have checked : ((run (raceStep checksumCrates addBobAndDave) raceStart inTurn).any fun final =>
      final.phase false = .finished (.ok ()) ∧ final.phase true = .finished (.ok ()) ∧
      (storedTable checksumCrates (ascii "vault") final.disk).all fun found =>
        found.slots.all (KeySlot.apart checksumCrates used)) = true := by
    decide +kernel
  have alone : (inTurn.inits.all fun before =>
      (run (raceStep checksumCrates addBobAndDave) raceStart before).all Race.exclusive) = true := by
    decide +kernel
  obtain ⟨final, ran, checked⟩ := (Option.any_eq_true _ _).mp checked
  obtain ⟨done, doneLast, apart⟩ := of_decide_eq_true checked
  have rejects : ∀ found, storedTable checksumCrates (ascii "vault") final.disk = some found →
      ∀ slot ∈ found.slots, RejectsOtherKeys checksumCrates used slot := by
    intro found storedFound slot member
    rw [storedFound] at apart
    exact (KeySlot.apart_spec checksumCrates_opensSealed (List.all_eq_true.mp apart slot member)).2
  have undisturbed : Undisturbed checksumCrates addBobAndDave raceStart inTurn final false :=
    undisturbed_of_exclusive fun mid visits held other j holding waiting =>
      Race.exclusive_spec (visits.passes alone) holding waiting
  have target : ∀ i, (addBobAndDave i).args (ascii "f") = some (ascii "vault") := by decide
  obtain ⟨v', opened⟩ := (add_race checksumCrates_opensSealed checksumCrates_expandsShort addBobAndDave _ target
    raceStart (fun _ => rfl) inTurn final ran).2 table used verifier stored bound (List.subset_cons_self _ _) rejects
    false (ascii "bob") (by decide) done undisturbed
  exact ⟨final, v', ran, doneLast, opened⟩

/-- Both have read before either writes: each reports success, and the first one's member is lost. -/
theorem added_member_lost : ∃ started final, initAlice.exec checksumCrates letterDisk = (.ok (), started) ∧
    run (raceStep checksumCrates addBobAndDave) ⟨started, fun _ => .ready⟩ [false, true, false, true] = some final ∧
    final.phase false = .finished (.ok ()) ∧ final.phase true = .finished (.ok ()) ∧
    (openVault checksumCrates (ascii "vault") (ascii "bob") final.disk).1 = .err (.cannotOpenVault .noSlotUnsealed) ∧
    ∀ table, storedTable checksumCrates (ascii "vault") final.disk = some table → ∀ slot ∈ table.slots,
      KeysDiffer checksumCrates [ascii "alice", ascii "bob", ascii "dave"] slot ∧
      RejectsOtherKeys checksumCrates [ascii "alice", ascii "bob", ascii "dave"] slot := by
  have initialized : (initAlice.exec checksumCrates letterDisk).1 = .ok () := by decide +kernel
  have checked : ((run (raceStep checksumCrates addBobAndDave) raceStart [false, true, false, true]).any fun final =>
      final.phase false = .finished (.ok ()) ∧ final.phase true = .finished (.ok ()) ∧
      (openVault checksumCrates (ascii "vault") (ascii "bob") final.disk).1 =
        .err (.cannotOpenVault .noSlotUnsealed) ∧
      (storedTable checksumCrates (ascii "vault") final.disk).all fun table =>
        table.slots.all (KeySlot.apart checksumCrates [ascii "alice", ascii "bob", ascii "dave"])) = true := by
    decide +kernel
  obtain ⟨final, ran, checked⟩ := (Option.any_eq_true _ _).mp checked
  obtain ⟨first, second, refused, apart⟩ := of_decide_eq_true checked
  refine ⟨_, final, Method.eq_of_fst _ initialized, ran, first, second, refused, ?_⟩
  intro table stored slot member
  rw [stored] at apart
  exact KeySlot.apart_spec checksumCrates_opensSealed (List.all_eq_true.mp apart slot member)

end SoteriaAegis.Cli
