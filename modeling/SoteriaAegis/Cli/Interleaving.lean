import SoteriaAegis.Cli.Tasks
import SoteriaAegis.Cli.Frame
import SoteriaAegis.Cli.Sealed
import SoteriaAegis.Cli.Interruption

/-! Processes of all five commands on one disk, their accesses in any order. A file is read or
written in one access here. Each process writes at most the one file that it names for it, with
what it has computed from the accesses before. -/

namespace SoteriaAegis.Cli
open Rust Crypto Slots Vault

theorem Writes.satisfies {claim : Str → List UInt8 → Prop} {call : Process Unit}
    (writes : Writes claim call) {keep : Disk → Prop}
    (kept : ∀ disk path bytes, keep disk → claim path bytes → keep (disk.write path bytes)) :
    (Program.atomic call).Satisfies keep fun _ => True := by
  apply Program.satisfies_atomic
  intro disk holds
  refine ⟨?_, fun _ _ => trivial⟩
  rcases writes disk with unchanged | ⟨path, bytes, claimed, written⟩
  · rw [unchanged]
    exact holds
  · rw [written]
    exact kept disk path bytes holds claimed

variable {crates : Crates} {args : Args} {draws : Draws} {keep : Disk → Prop}

def Opened (crates : Crates) (args : Args) (keep : Disk → Prop) (inp outp : Str) (v : AegisVault) :
    Prop :=
  ∃ pass file disk, FileFlags args pass file inp outp ∧ keep disk ∧
    openVault crates file pass disk = (.ok v, disk)

theorem openFor_satisfies :
    (Program.atomic (openFor crates args)).Satisfies keep
      fun held => Opened crates args keep held.1 held.2.1 held.2.2 := by
  apply Program.satisfies_reads (openFor_reads crates args)
  intro disk held kept done
  obtain ⟨_, pass, file, flags, opened⟩ := openFor_ok crates done
  exact ⟨pass, file, disk, flags, kept, opened⟩

theorem readFile_satisfies (path : Str) :
    (Program.atomic (readFile path)).Satisfies keep fun bytes => ∃ disk, keep disk ∧
    disk.files path = .ok bytes := by
  apply Program.satisfies_reads (readFile_reads path)
  intro disk bytes kept done
  exact ⟨disk, kept, ((readFile_eq_ok_iff _ _ _ _).mp done).1⟩

/-! A process keeps a property when its last access does, with what the accesses before have seen. -/

theorem addTask_satisfies (last : ∀ held before, keep before →
      addRead args before = (.ok held, before) →
    (Program.atomic (addCommit crates held draws)).Satisfies keep fun _ => True) :
    (addTask crates args draws).Satisfies keep fun _ => True := by
  have reads : (Program.atomic (addRead args)).Satisfies keep
      fun held => ∃ before, keep before ∧ addRead args before = (.ok held, before) :=
    Program.satisfies_reads (addRead_reads args) fun disk held kept done => ⟨disk, kept, done⟩
  apply reads.bind
  intro held ⟨before, kept, read⟩
  exact last held before kept read

theorem sealTask_satisfies (last : ∀ inp outp v data, Opened crates args keep inp outp v →
    (∃ disk, keep disk ∧ disk.files inp = .ok data) →
    (Program.atomic (sealWrite crates outp v data draws)).Satisfies keep fun _ => True) :
    (sealTask crates args draws).Satisfies keep fun _ => True := by
  apply openFor_satisfies.bind
  intro ⟨inp, outp, v⟩ opened
  apply (readFile_satisfies inp).bind
  intro data read
  exact last inp outp v data opened read

theorem openTask_satisfies (last : ∀ inp outp v blob, Opened crates args keep inp outp v →
    (∃ disk, keep disk ∧ disk.files inp = .ok blob) →
    (Program.atomic (openWrite crates outp v blob)).Satisfies keep fun _ => True) :
    (openTask crates args).Satisfies keep fun _ => True := by
  apply openFor_satisfies.bind
  intro ⟨inp, outp, v⟩ opened
  apply (readFile_satisfies inp).bind
  intro blob read
  exact last inp outp v blob opened read

theorem task_satisfies {command : Str}
    (init : command = ascii "init" → (initTask crates args draws).Satisfies keep fun _ => True)
    (add : command = ascii "add" → (addTask crates args draws).Satisfies keep fun _ => True)
    (seals : command = ascii "seal" → (sealTask crates args draws).Satisfies keep fun _ => True)
    (opens : command = ascii "open" → (openTask crates args).Satisfies keep fun _ => True) :
    (task crates command args draws).Satisfies keep fun _ => True := by
  unfold task
  split
  next isInit => exact init isInit
  split
  next isAdd => exact add isAdd
  split
  next isSeal => exact seals isSeal
  split
  next isOpen => exact opens isOpen
  split
  · exact Program.satisfies_reads (verifyCommand_reads crates args) fun _ _ _ _ => trivial
  · trivial

theorem mainTask_satisfies {argv : List Str}
    (each : ∀ command args, parseArgs argv = .ok (command, args) →
    (task crates command args draws).Satisfies keep fun _ => True) :
    (mainTask crates draws argv).Satisfies keep fun _ => True := by
  unfold mainTask
  cases parsed : parseArgs argv with
  | ok answer => exact each answer.1 answer.2 parsed
  | err failure => trivial
  | panic => trivial

/-- A vault file holds a given table, with slots added behind. -/
def Grown (crates : Crates) (file : Str) (first : KeySlotTable) (disk : Disk) : Prop :=
  ∃ table, storedTable crates file disk = some table ∧ Extends first table

section
variable {file : Str} {first : KeySlotTable} {disk : Disk}

theorem Grown.write_other (grown : Grown crates file first disk) {path : Str} (differ : path ≠ file)
    (bytes : List UInt8) : Grown crates file first (disk.write path bytes) := by
  obtain ⟨table, stored, added⟩ := grown
  exact ⟨table, (storedTable_write_other (Ne.symm differ)).trans stored, added⟩

/-- An `add` may write back an old copy of the file, but no copy older than the first. -/
theorem Grown.commit {before : Disk} (early : Grown crates file first before)
    (late : Grown crates file first disk)
    {held : Held} (read : addRead args before = (.ok held, before)) {slotBytes : List UInt8}
    {salt : U8Array 32} (computed : addCompute crates held draws = .ok (slotBytes, salt)) :
    Grown crates file first (disk.write held.file (vaultFile slotBytes salt)) := by
  by_cases same : held.file = file
  · obtain ⟨table, stored, added⟩ := early
    obtain ⟨found, raw, slot, recovered, _, _, written⟩ := addCompute_stored computed
    have storedFound := storedTable_eq_some_iff.mpr ⟨_, _, (addRead_ok read).2.2.2.2,
      recovered.read⟩
    rw [same, stored, Option.some.injEq] at storedFound
    rw [storedFound] at added
    exact ⟨_, same ▸ written disk, added.append slot⟩
  · exact late.write_other same _

theorem Grown.openVault {start : Disk} (stored : storedTable crates file start = some first)
    (grown : Grown crates file first disk) {pass : Str} {v : AegisVault}
    (opened : Cli.openVault crates file pass start = (.ok v, start)) :
    ∃ table, Cli.openVault crates file pass disk =
    (.ok ⟨v.master, v.hierarchy, some table⟩, disk) := by
  obtain ⟨table, storedNow, added⟩ := grown
  exact ⟨table, added.openVault stored storedNow opened⟩

theorem Grown.write (grown : Grown crates file first disk) {command : Str}
    (spared : target command args = some file → command = ascii "add") {path : Str}
    (aimed : target command args = some path) {bytes : List UInt8}
    (added : command = ascii "add" → Grown crates file first (disk.write path bytes)) :
    Grown crates file first (disk.write path bytes) := by
  by_cases same : path = file
  · exact added (spared (same ▸ aimed))
  · exact grown.write_other same bytes

theorem task_keeps_grown {command : Str}
    (spared : target command args = some file → command = ascii "add") :
    (task crates command args draws).Satisfies (Grown crates file first) fun _ => True := by
  apply task_satisfies
  · rintro rfl
    apply (initCommand_writes crates args draws).satisfies
    intro disk path bytes grown given
    have aimed : target (ascii "init") args = some path := given
    exact grown.write spared aimed fun added => absurd added (by decide)
  · rintro rfl
    apply addTask_satisfies
    intro held before early read
    apply (addCommit_writes crates draws held).satisfies
    intro disk path bytes late ⟨atFile, slotBytes, salt, computed, written⟩
    rw [atFile, written]
    exact early.commit late read computed
  · rintro rfl
    apply sealTask_satisfies
    intro inp outp v data ⟨_, _, _, flags, _⟩ _
    apply (sealWrite_writes crates draws outp v data).satisfies
    intro disk path bytes grown ⟨atOut, _⟩
    have aimed : target (ascii "seal") args = some path := atOut ▸ flags.outp.1
    exact grown.write spared aimed fun added => absurd added (by decide)
  · rintro rfl
    apply openTask_satisfies
    intro inp outp v blob ⟨_, _, _, flags, _⟩ _
    apply (openWrite_writes crates outp v blob).satisfies
    intro disk path bytes grown atOut
    have aimed : target (ascii "open") args = some path := atOut ▸ flags.outp.1
    exact grown.write spared aimed fun added => absurd added (by decide)

end

variable {ι : Type} [DecidableEq ι]

def processes (crates : Crates) (disk : Disk) (draws : ι → Draws) (argv : ι → List Str) :
    Pool Disk Failure Unit ι :=
  ⟨disk, fun i => mainTask crates (draws i) (argv i)⟩

/-- A process that is picked alone until it is done does what the program does. -/
theorem processes_alone (disk : Disk) (draws : ι → Draws) (argv : ι → List Str) (i : ι) :
    ∃ turns final,
    run Pool.step (processes crates disk draws argv) (List.replicate turns i) = some final ∧
    main crates (draws i) (argv i) disk = ((main crates (draws i) (argv i) disk).1, final.shared) ∧
    final.programs i = .done (main crates (draws i) (argv i) disk).1 := by
  obtain ⟨turns, final, ran, shared, ended⟩ := Pool.run_alone (processes crates disk draws argv) i
  simp only [processes, mainTask_exec] at shared ended
  exact ⟨turns, final, ran, Prod.ext rfl shared.symm, ended⟩

/-- Nobody loses the access to a vault file, and the keys stay the same, while processes of all
commands run in any order, as long as only `add` processes write the file. -/
theorem access_survives (draws : ι → Draws) (argv : ι → List Str) {file : Str}
    (spared : ∀ i command args, parseArgs (argv i) = .ok (command, args) →
      target command args = some file →
      command = ascii "add")
    {start : Disk} {schedule : List ι} {pool : Pool Disk Failure Unit ι}
    (visits : Visits Pool.step (processes crates start draws argv) schedule pool) {pass : Str}
    {v : AegisVault} (opened : openVault crates file pass start = (.ok v, start)) :
    ∃ table, openVault crates file pass pool.shared =
    (.ok ⟨v.master, v.hierarchy, some table⟩, pool.shared) := by
  obtain ⟨_, first, _, _, stored, _⟩ := openVault_stored opened
  have kept : Pool.Kept (Grown crates file first) (fun _ _ => True)
    (processes crates start draws argv) := by
    refine ⟨⟨first, stored, Extends.refl first⟩, fun i => ?_⟩
    exact mainTask_satisfies fun command args parsed =>
      task_keeps_grown (spared i command args parsed)
  exact (kept.visited visits).shared.openVault stored opened

def sealAsAlice : Invocation (ascii "seal") :=
  .ofFlags _ [ascii "-p", ascii "alice", ascii "-f", ascii "vault", ascii "-i", ascii "letter",
    ascii "-o", ascii "blob"]

def openAsAlice : Invocation (ascii "open") :=
  .ofFlags _ [ascii "-p", ascii "alice", ascii "-f", ascii "vault", ascii "-i", ascii "blob",
    ascii "-o", ascii "copy"]

def crowd : Fin 3 → List Str
  | 0 => addBob.argv
  | 1 => sealAsAlice.argv
  | 2 => openAsAlice.argv

/-- All begin before the first of them ends. -/
def crowded : List (Fin 3) := [0, 1, 2, 1, 0, 1, 2, 2]

theorem access_survives_crowd : ∃ v pool table,
    openVault checksumCrates (ascii "vault") (ascii "alice") aliceVault = (.ok v, aliceVault) ∧
    run Pool.step (processes checksumCrates aliceVault (fun _ => addBob.draws) crowd) crowded =
    some pool ∧
    openVault checksumCrates (ascii "vault") (ascii "alice") pool.shared =
      (.ok ⟨v.master, v.hierarchy, some table⟩, pool.shared) := by
  have opens : (openVault checksumCrates (ascii "vault") (ascii "alice")
    aliceVault).1.toOption.isSome = true := by
    decide +kernel
  obtain ⟨v, opens⟩ := Outcome.ok_of_isSome opens
  have opened := (openVault_reads checksumCrates _ _).eq_of_fst opens
  obtain ⟨pool, ran⟩ := run_total Pool.step_total
    (processes checksumCrates aliceVault (fun _ => addBob.draws) crowd) crowded
  have spared : ∀ i command args, parseArgs (crowd i) = .ok (command, args) →
      target command args = some (ascii "vault") → command = ascii "add" := by
    intro i command args parsed aimed
    match i with
    | 0 =>
      cases parsed
      rfl
    | 1 =>
      cases parsed
      exact absurd aimed (by decide)
    | 2 =>
      cases parsed
      exact absurd aimed (by decide)
  obtain ⟨table, openedNow⟩ :=
    access_survives (fun _ => addBob.draws) crowd spared (Visits.last ran) opened
  exact ⟨v, pool, table, opened, ran, openedNow⟩

theorem openWrite_sealed (opens : crates.OpensSealed) {v : AegisVault} {data blob : List UInt8}
    (sealed : Sealed crates v data blob) (outp : Str) :
    openWrite crates outp v blob = writeFile outp data := by
  obtain ⟨nonce, ct, length, rfl, decrypted⟩ := sealed_decrypts opens sealed
  have count : ([0, 24] ++ nonce ++ ct).length = 26 + ct.length := by
    rw [List.length_append, List.length_append, length]
    rfl
  have long : 26 ≤ ([0, 24] ++ nonce ++ ct).length := by omega
  have front : (([0, 24] ++ nonce ++ ct).drop 2).take (26 - 2) = nonce := List.take_left' length
  have back : ([0, 24] ++ nonce ++ ct).drop 26 = ct := by
    apply List.drop_left'
    rw [List.length_append, length]
    rfl
  have nlen : (Outcome.index ([0, 24] ++ nonce ++ ct) 1 : Outcome Failure UInt8) = .ok 24 := rfl
  have sum : 2 + (24 : UInt8).toNat = 26 := rfl
  funext disk
  unfold openWrite
  simp only [nlen, sum, sliceRange_ok _ 2 26 (by decide) long, sliceRange_back long, front,
    back, decrypted, Outcome.mapErr, Method.bind_apply, Method.lift_apply,
      if_neg (by omega : ¬([0, 24] ++ nonce ++ ct).length < 2),
    if_neg (by omega : ¬([0, 24] ++ nonce ++ ct).length < 26)]

theorem sealed_congr {v w : AegisVault} (same : w.hierarchy = v.hierarchy)
    {data blob : List UInt8} :
    Sealed crates w data blob ↔ Sealed crates v data blob := by
  unfold Sealed AegisVault.domain
  rw [same]

/-- A vault file and three files beside it: the data, what is sealed of it, and what is opened of that. -/
structure Route where
  file : Str
  src : Str
  blob : Str
  out : Str
  apart : [file, src, blob, out].Nodup

namespace Route
variable {route : Route}

def Reads (route : Route) (member : Str → Prop) (args : Args) (inp : Str) : Prop :=
  args (ascii "f") = some route.file ∧ args (ascii "i") = some inp ∧ ∀ pass,
    args (ascii "p") = some pass → member pass

/-- The process writes the files of the route as they are meant to be written. -/
structure Respected (route : Route) (member : Str → Prop) (command : Str) (args : Args) : Prop where
  file : target command args = some route.file → command = ascii "add"
  src : target command args ≠ some route.src
  blob : target command args = some route.blob → command = ascii "seal" ∧
    route.Reads member args route.src
  out : target command args = some route.out → command = ascii "open" ∧
    route.Reads member args route.blob

/-- What holds at any time: `data` goes from file to file unchanged. -/
structure Carries (crates : Crates) (route : Route) (first : KeySlotTable) (v : AegisVault)
    (data : List UInt8) (old : Except Str (List UInt8)) (disk : Disk) : Prop where
  file : Grown crates route.file first disk
  src : disk.files route.src = .ok data
  blob : ∀ bytes, disk.files route.blob = .ok bytes → Sealed crates v data bytes
  out : disk.files route.out = old ∨ disk.files route.out = .ok data

namespace Carries
variable {first : KeySlotTable} {v : AegisVault} {data : List UInt8} {old : Except Str (List UInt8)}
  {start disk : Disk}

theorem write (carries : route.Carries crates first v data old disk) {member : Str → Prop}
    {command : Str}
    (respected : route.Respected member command args) {path : Str}
    (aimed : target command args = some path) {bytes : List UInt8} (file : command = ascii "add" →
      Grown crates route.file first (disk.write path bytes))
    (blob : command = ascii "seal" → path = route.blob → Sealed crates v data bytes)
    (out : command = ascii "open" → path = route.out → bytes = data) :
    route.Carries crates first v data old (disk.write path bytes) := by
  have src : path ≠ route.src := fun same => respected.src (same ▸ aimed)
  refine ⟨?_, (Disk.write_other disk (Ne.symm src) bytes).trans carries.src, ?_, ?_⟩
  · by_cases same : path = route.file
    · exact file (respected.file (same ▸ aimed))
    · exact carries.file.write_other same bytes
  · intro found held
    by_cases same : path = route.blob
    · rw [← same, Disk.write_same] at held
      cases held
      exact blob (respected.blob (same ▸ aimed)).1 same
    · rw [Disk.write_other disk (Ne.symm same)] at held
      exact carries.blob found held
  · by_cases same : path = route.out
    · right
      rw [← same, Disk.write_same, out (respected.out (same ▸ aimed)).1 same]
    · rw [Disk.write_other disk (Ne.symm same)]
      exact carries.out

theorem opened (carries : route.Carries crates first v data old disk)
    (stored : storedTable crates route.file start = some first)
    {inp : Str} (reads : route.Reads (fun pass => openVault crates route.file pass start =
      (.ok v, start)) args inp)
    {pass file found outp : Str} (flags : FileFlags args pass file found outp) {w : AegisVault}
    (opening : openVault crates file pass disk = (.ok w, disk)) :
    found = inp ∧ w.hierarchy = v.hierarchy := by
  obtain ⟨atFile, atInp, member⟩ := reads
  have sameFile := flags.file.1.symm.trans atFile
  have sameInp := flags.inp.1.symm.trans atInp
  rw [Option.some.injEq] at sameFile sameInp
  rw [sameFile] at opening
  obtain ⟨table, again⟩ := carries.file.openVault stored (member pass flags.pass.1)
  rw [opening] at again
  cases again
  exact ⟨sameInp, rfl⟩

theorem task_keeps (opens : crates.OpensSealed)
    (stored : storedTable crates route.file start = some first)
    {command : Str}
    (respected : route.Respected (fun pass => openVault crates route.file pass start =
      (.ok v, start)) command args) :
    (task crates command args draws).Satisfies (route.Carries crates first v data old) fun _ =>
    True := by
  apply task_satisfies
  · rintro rfl
    apply (initCommand_writes crates args draws).satisfies
    intro disk path bytes carries given
    have aimed : target (ascii "init") args = some path := given
    exact carries.write respected aimed (fun added => absurd added (by decide))
      (fun seals => absurd seals (by decide))
      fun opened => absurd opened (by decide)
  · rintro rfl
    apply addTask_satisfies
    intro held before early read
    apply (addCommit_writes crates draws held).satisfies
    intro disk path bytes carries ⟨atFile, slotBytes, salt, computed, written⟩
    rw [atFile, written]
    have aimed : target (ascii "add") args = some held.file := (addRead_ok read).2.2.2.1
    exact carries.write respected aimed (fun _ => early.file.commit carries.file read computed)
      (fun seals => absurd seals (by decide)) fun opened => absurd opened (by decide)
  · rintro rfl
    apply sealTask_satisfies
    intro inp outp w text ⟨pass, file, opening, flags, early, opened⟩ ⟨reading, middle, read⟩
    apply (sealWrite_writes crates draws outp w text).satisfies
    intro disk path bytes carries ⟨atOut, nonce, ct, encrypted, written⟩
    rw [atOut]
    have aimed : target (ascii "seal") args = some outp := flags.outp.1
    refine carries.write respected aimed (fun added => absurd added (by decide)) (fun _ same => ?_)
      fun opened => absurd opened (by decide)
    obtain ⟨sameInp, keys⟩ := early.opened stored (respected.blob (same ▸ aimed)).2 flags opened
    rw [sameInp, middle.src, Except.ok.injEq] at read
    exact (sealed_congr keys).mp (sealed_iff.mpr ⟨_, nonce, ct, read ▸ encrypted, written⟩)
  · rintro rfl
    apply openTask_satisfies
    intro inp outp w found ⟨pass, file, opening, flags, early, opened⟩ ⟨reading, middle, read⟩
    have aimed : target (ascii "open") args = some outp := flags.outp.1
    have written : Writes (fun path bytes => path = outp ∧ (outp = route.out → bytes = data))
        (openWrite crates outp w found) := by
      by_cases same : outp = route.out
      · obtain ⟨sameInp, keys⟩ := early.opened stored (respected.out (same ▸ aimed)).2 flags opened
        rw [sameInp] at read
        rw [openWrite_sealed opens ((sealed_congr keys).mpr (middle.blob found read))]
        exact Writes.writeFile ⟨rfl, fun _ => rfl⟩
      · exact (openWrite_writes crates outp w found).imp fun path bytes atOut =>
          ⟨atOut, fun here => absurd here same⟩
    apply written.satisfies
    intro disk path bytes carries ⟨atOut, plain⟩
    rw [atOut]
    exact carries.write respected aimed (fun added => absurd added (by decide))
      (fun seals => absurd seals (by decide))
      fun _ => plain

end Carries

end Route

/-- One process seals a text, others open it, others again add members, in any order: whatever is
found in the files is the text, sealed or plain, and a sealed text can be opened at any time. -/
theorem sealed_arrives (opens : crates.OpensSealed) (route : Route) (draws : ι → Draws)
    (argv : ι → List Str) {start : Disk} {first : Str} {v : AegisVault}
    (opened : openVault crates route.file first start = (.ok v, start))
    (respected : ∀ i command args, parseArgs (argv i) = .ok (command, args) →
      route.Respected (fun pass => openVault crates route.file pass start = (.ok v, start))
      command args)
    {data : List UInt8} (src : start.files route.src = .ok data)
    (blob : ∀ bytes, start.files route.blob = .ok bytes → Sealed crates v data bytes)
    {schedule : List ι} {pool : Pool Disk Failure Unit ι}
    (visits : Visits Pool.step (processes crates start draws argv) schedule pool) :
    (∀ bytes, pool.shared.files route.blob = .ok bytes → Sealed crates v data bytes) ∧
    (pool.shared.files route.out = start.files route.out ∨ pool.shared.files route.out = .ok data) ∧
    ∀ args pass outp bytes, FileFlags args pass route.file route.blob outp →
      openVault crates route.file pass start = (.ok v, start) →
      pool.shared.files route.blob = .ok bytes →
      pool.shared.refusals outp = none →
      openCommand crates args pool.shared = (.ok (), pool.shared.write outp data) := by
  obtain ⟨_, table, _, _, stored, _⟩ := openVault_stored opened
  have kept : Pool.Kept (route.Carries crates table v data (start.files route.out))
    (fun _ _ => True)
      (processes crates start draws argv) := by
    refine ⟨⟨⟨table, stored, Extends.refl table⟩, src, blob, Or.inl rfl⟩, fun i => ?_⟩
    exact mainTask_satisfies fun command args parsed =>
      Route.Carries.task_keeps opens stored (respected i command args parsed)
  have carries := (kept.visited visits).shared
  refine ⟨carries.blob, carries.out, fun args pass outp bytes flags member found writable => ?_⟩
  obtain ⟨last, openedNow⟩ := carries.file.openVault stored member
  obtain ⟨nonce, ct, length, same, decrypted⟩ := sealed_decrypts opens (carries.blob bytes found)
  refine (openCommand_eq_ok_iff crates flags openedNow found).mpr
    ⟨0, nonce, ct, data, ?_, ?_, decrypted, writable, rfl⟩
  · rw [length]
    decide
  · rw [length]
    exact same

def letterRoute : Route := ⟨ascii "vault", ascii "letter", ascii "blob", ascii "copy", by decide⟩

theorem sealed_arrives_letter : ∃ v pool,
    openVault checksumCrates (ascii "vault") (ascii "alice") aliceVault = (.ok v, aliceVault) ∧
    run Pool.step (processes checksumCrates aliceVault (fun _ => addBob.draws) crowd) crowded =
    some pool ∧
    pool.shared.files (ascii "copy") = .ok (ascii "dear") ∧
    ∀ bytes, pool.shared.files (ascii "blob") = .ok bytes →
    Sealed checksumCrates v (ascii "dear") bytes := by
  have checked : ((openVault checksumCrates (ascii "vault") (ascii "alice")
    aliceVault).1.toOption.any fun _ =>
      aliceVault.files (ascii "letter") = .ok (ascii "dear") ∧
        (aliceVault.files (ascii "blob")).toOption = none ∧
      (aliceVault.files (ascii "copy")).toOption = none) = true := by
    decide +kernel
  have reached : ((run Pool.step (processes checksumCrates aliceVault (fun _ => addBob.draws) crowd)
    crowded).any
      fun pool => (pool.shared.files (ascii "copy")).toOption.isSome) = true := by
    decide +kernel
  obtain ⟨v, opens, checked⟩ := Outcome.ok_of_any checked
  obtain ⟨pool, ran, copied⟩ := (Option.any_eq_true _ _).mp reached
  obtain ⟨letter, noBlob, noCopy⟩ := of_decide_eq_true checked
  have opened := (openVault_reads checksumCrates _ _).eq_of_fst opens
  have respected : ∀ i command args, parseArgs (crowd i) = .ok (command, args) →
    letterRoute.Respected
      (fun pass => openVault checksumCrates (ascii "vault") pass aliceVault = (.ok v, aliceVault))
        command args := by
    intro i command args parsed
    have alice : ∀ pass, some (ascii "alice") = some pass →
        openVault checksumCrates (ascii "vault") pass aliceVault = (.ok v, aliceVault) := by
      intro pass given
      cases given
      exact opened
    match i with
    | 0 =>
      cases parsed
      exact ⟨fun _ => rfl, by decide, fun aimed => absurd aimed (by decide), fun aimed =>
        absurd aimed (by decide)⟩
    | 1 =>
      cases parsed
      exact ⟨fun aimed => absurd aimed (by decide), by decide, fun _ => ⟨rfl, rfl, rfl, alice⟩,
        fun aimed => absurd aimed (by decide)⟩
    | 2 =>
      cases parsed
      exact ⟨fun aimed => absurd aimed (by decide), by decide, fun aimed =>
        absurd aimed (by decide),
        fun _ => ⟨rfl, rfl, rfl, alice⟩⟩
  have unsealed : ∀ bytes, aliceVault.files (ascii "blob") = .ok bytes →
    Sealed checksumCrates v (ascii "dear") bytes := by
    intro bytes found
    rw [toOption_eq_some_iff.mpr found] at noBlob
    cases noBlob
  obtain ⟨sealed, arrived, _⟩ :=
    sealed_arrives checksumCrates_opensSealed letterRoute (fun _ => addBob.draws) crowd opened
    respected letter unsealed (Visits.last ran)
  refine ⟨v, pool, opened, ran, ?_, sealed⟩
  rcases arrived with unchanged | arrived
  · have here : pool.shared.files (ascii "copy") = aliceVault.files (ascii "copy") := unchanged
    rw [here, noCopy] at copied
    cases copied
  · exact arrived

end SoteriaAegis.Cli
