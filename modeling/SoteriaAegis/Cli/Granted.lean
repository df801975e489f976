import SoteriaAegis.Cli.Requests

/-! The five commands, one by one: each does to the disk what its request does to the cabinet, and
fails exactly when the request is refused. -/

namespace SoteriaAegis.Cli
open Rust Crypto Slots Vault Access

section
variable {crates : Crates} {disk after : Disk} {args : Args} {draws : Draws}

theorem req_bind_given_iff {α : Type} (key : Str) (next : Str → Process α) (result : α) :
    (req args key >>= next) disk = (.ok result, after) ↔
      ∃ value, given args key = some value ∧ next value disk = (.ok result, after) := by
  simp only [req_bind_eq_ok_iff, given_eq_some_iff]

theorem writeTable_steps_iff (path : Str) (v : AegisVault) :
    (∃ bytes, (Outcome.expectSome (v.slotsToBytes crates) : Outcome Failure _) = .ok bytes ∧
      ∃ salt, (Outcome.expectSome v.slotsHeaderSalt : Outcome Failure _) = .ok salt ∧
        writeVault path bytes salt disk = (.ok (), after)) ↔
      ∃ table, v.slots = some table ∧ disk.refusals path = none ∧
        after = disk.write path (vaultFile (table.toBytes crates) table.headerSalt) := by
  rw [← writeTable_eq_ok_iff crates path v]
  simp only [Method.lift_bind_eq_ok_iff]

theorem initCommand_eq_ok_iff : initCommand crates args draws disk = (.ok (), after) ↔
    ∃ pass, given args (ascii "p") = some pass ∧ ∃ out, given args (ascii "o") = some out ∧
      ∃ v, AegisVault.unlock crates pass MASTER_SALT MEM_KIB ITERS = .ok v ∧
      ∃ done v', AegisVault.sealSlots crates pass draws.table v = (.ok done, v') ∧
      ∃ table, v'.slots = some table ∧ disk.refusals out = none ∧
        after = disk.write out (vaultFile (table.toBytes crates) table.headerSalt) := by
  simp only [initCommand, req_bind_given_iff, Method.lift_bind_eq_ok_iff,
    Outcome.mapErr_eq_ok_iff, Prod.exists, Method.on_eq_ok_iff, writeTable_steps_iff]

theorem addCommand_eq_ok_iff : addCommand crates args draws disk = (.ok (), after) ↔
    ∃ pass, given args (ascii "p") = some pass ∧ ∃ newp, given args (ascii "n") = some newp ∧
      ∃ file, given args (ascii "f") = some file ∧
      ∃ v, openVault crates file pass disk = (.ok v, disk) ∧
      ∃ idx v', AegisVault.addSlot crates newp draws.table v = (.ok idx, v') ∧
      ∃ table, v'.slots = some table ∧ disk.refusals file = none ∧
        after = disk.write file (vaultFile (table.toBytes crates) table.headerSalt) := by
  simp only [addCommand, req_bind_given_iff, openVault_bind_eq_ok_iff, Method.lift_bind_eq_ok_iff,
    Outcome.mapErr_eq_ok_iff, Prod.exists, Method.on_eq_ok_iff, writeTable_steps_iff]

theorem sealCommand_eq_ok_iff : sealCommand crates args draws disk = (.ok (), after) ↔
    ∃ pass, given args (ascii "p") = some pass ∧ ∃ file, given args (ascii "f") = some file ∧
      ∃ inp, given args (ascii "i") = some inp ∧ ∃ outp, given args (ascii "o") = some outp ∧
      ∃ v, openVault crates file pass disk = (.ok v, disk) ∧ ∃ data, disk.files inp = .ok data ∧
      ∃ nonce ct, v.encrypt crates .enc data AAD .xChaCha20Poly1305 draws.fill = .ok (nonce, ct) ∧
        disk.refusals outp = none ∧ after = disk.write outp (sealedBlob nonce ct) := by
  simp only [sealCommand, req_bind_given_iff, openVault_bind_eq_ok_iff, readFile_bind_eq_ok_iff,
    Method.lift_bind_eq_ok_iff, Outcome.mapErr_eq_ok_iff, Prod.exists, writeFile_eq_ok_iff]

theorem verdict_eq_ok_iff (verified : Bool) :
    (if verified then return () else Method.fail .verifyFailed : Process Unit)
      disk = (.ok (), after) ↔
      verified = true ∧ after = disk := by
  cases verified with
  | true => simp [eq_comm]
  | false => simp

theorem verifyCommand_eq_ok_iff : verifyCommand crates args disk = (.ok (), after) ↔
    ∃ pass, given args (ascii "p") = some pass ∧ ∃ file, given args (ascii "f") = some file ∧
      ∃ v, openVault crates file pass disk = (.ok v, disk) ∧
      ∃ verified, (v.verifyVolume crates : Outcome Failure Bool) = .ok verified ∧ verified = true ∧
      after = disk := by
  simp only [verifyCommand, req_bind_given_iff, openVault_bind_eq_ok_iff,
    Method.lift_bind_eq_ok_iff, verdict_eq_ok_iff]

variable {asked : Request Str Str}

theorem request_init_iff : request (ascii "init") args = some asked ↔
    ∃ pass, given args (ascii "p") = some pass ∧ ∃ out, given args (ascii "o") = some out ∧
    .create pass out = asked := by
  rw [request, if_pos rfl]
  simp only [Option.bind_eq_bind, Option.bind_eq_some_iff, Option.pure_def, Option.some.injEq]

theorem request_add_iff : request (ascii "add") args = some asked ↔
    ∃ pass, given args (ascii "p") = some pass ∧ ∃ newp, given args (ascii "n") = some newp ∧
      ∃ file, given args (ascii "f") = some file ∧ .enroll pass newp file = asked := by
  rw [request, if_neg (by decide), if_pos rfl]
  simp only [Option.bind_eq_bind, Option.bind_eq_some_iff, Option.pure_def, Option.some.injEq]

theorem request_seal_iff : request (ascii "seal") args = some asked ↔
    ∃ pass, given args (ascii "p") = some pass ∧ ∃ file, given args (ascii "f") = some file ∧
      ∃ inp, given args (ascii "i") = some inp ∧ ∃ outp, given args (ascii "o") = some outp ∧
        .wrap pass file inp outp = asked := by
  rw [request, if_neg (by decide), if_neg (by decide), if_pos rfl]
  simp only [Option.bind_eq_bind, Option.bind_eq_some_iff, Option.pure_def, Option.some.injEq]

theorem request_open_iff : request (ascii "open") args = some asked ↔
    ∃ pass, given args (ascii "p") = some pass ∧ ∃ file, given args (ascii "f") = some file ∧
      ∃ inp, given args (ascii "i") = some inp ∧ ∃ outp, given args (ascii "o") = some outp ∧
        .unwrap pass file inp outp = asked := by
  rw [request, if_neg (by decide), if_neg (by decide), if_neg (by decide), if_pos rfl]
  simp only [Option.bind_eq_bind, Option.bind_eq_some_iff, Option.pure_def, Option.some.injEq]

theorem request_verify_iff : request (ascii "verify") args = some asked ↔
    ∃ pass, given args (ascii "p") = some pass ∧ ∃ file, given args (ascii "f") = some file ∧
      .check pass file = asked := by
  rw [request, if_neg (by decide), if_neg (by decide), if_neg (by decide),
    if_neg (by decide), if_pos rfl]
  simp only [Option.bind_eq_bind, Option.bind_eq_some_iff, Option.pure_def, Option.some.injEq]

end

variable {crates : Crates} {used : List Str} {disk after : Disk} {files next : Files} {args : Args}
  {draws : Draws}

/-- The command succeeds exactly when its request is granted, and then does what the request does. -/
structure Follows (crates : Crates) (used : List Str) (disk : Disk) (files : Files)
    (asked : Option (Request Str Str)) (command : Process Unit) : Prop where
  granted : ∀ wish next, asked = some wish →
    files.perform (rootOf crates) MAX_SLOTS wish = some next →
    ∃ after, command disk = (.ok (), after) ∧ Mirrors crates used after next
  refused : ∀ after, command disk = (.ok (), after) →
    ∃ wish next, asked = some wish ∧ files.perform (rootOf crates) MAX_SLOTS wish = some next

namespace Mirrors

theorem put (mirrors : Mirrors crates used disk files) {path : Str} {content : FileContent}
    {bytes : List UInt8}
    (holds : Holds crates used content bytes) (done : files.put path content = some next) :
    Mirrors crates used (disk.write path bytes) next := by
  refine ⟨?_, ?_, ?_⟩
  · intro other found at_other
    by_cases same : other = path
    · rw [same, Cabinet.put_same done, Option.some.injEq] at at_other
      rw [same, ← at_other]
      exact ⟨bytes, Disk.write_same disk path bytes, holds⟩
    · rw [Cabinet.put_other done same] at at_other
      rw [Disk.write_other disk same]
      exact mirrors.present other found at_other
  · intro other absent
    by_cases same : other = path
    · rw [same, Cabinet.put_same done] at absent
      cases absent
    · rw [Cabinet.put_other done same] at absent
      rw [Disk.write_other disk same]
      exact mirrors.missing other absent
  · intro other
    rw [Cabinet.put_writable done]
    exact mirrors.writable other

theorem putable (mirrors : Mirrors crates used disk files) {path : Str}
    (writable : disk.refusals path = none)
    (content : FileContent) : ∃ next, files.put path content = some next :=
  ⟨_, Cabinet.put_eq_some_iff.mpr ⟨(mirrors.writable path).mpr writable, rfl⟩⟩

theorem found_of_file (mirrors : Mirrors crates used disk files) {path : Str} {bytes : List UInt8}
    (read : disk.files path = .ok bytes) : ∃ content, files.files path = some content := by
  apply Option.ne_none_iff_exists'.mp
  intro absent
  exact mirrors.missing path absent bytes read

theorem not_refused (mirrors : Mirrors crates used disk files) {path : Str} {content : FileContent}
    (done : files.put path content = some next) : disk.refusals path = none :=
  (mirrors.writable path).mp (Cabinet.put_eq_some_iff.mp done).1

end Mirrors

theorem unlock_root (able : Able crates used) {pass : Str} (member : pass ∈ used) :
    ∃ hierarchy, AegisVault.unlock crates pass MASTER_SALT MEM_KIB ITERS =
      .ok ⟨AegisKey.new32 (rootOf crates pass), hierarchy, none⟩ := by
  obtain ⟨hierarchy, derived⟩ :=
    KeyHierarchy.fromMaster_total crates able.expands (rootOf crates pass).val
  refine ⟨hierarchy, (AegisVault.unlock_eq_ok_iff crates _ _ _ _ _).mpr ⟨_, able.root member, ?_⟩⟩
  exact (AegisVault.fromMasterKey_eq_ok_iff crates _ _).mpr ⟨hierarchy, derived, rfl⟩

theorem sealSlots_root (able : Able crates used) {pass : Str} (member : pass ∈ used)
    (master : U8Array MASTER_LEN) (hierarchy : KeyHierarchy) (draws : TableDraws) : ∃ table,
      AegisVault.sealSlots crates pass draws ⟨AegisKey.new32 master, hierarchy, none⟩ =
        (.ok (), ⟨AegisKey.new32 master, hierarchy, some table⟩) ∧
      Holds crates used (.vault master [pass])
        (vaultFile (table.toBytes crates) table.headerSalt) := by
  obtain ⟨slot, created⟩ := able.creates member master draws.slot
  have made : KeySlotTable.newInitial crates master pass draws =
      .ok ⟨draws.headerSalt, [slot], volumeVerifier crates master⟩ :=
    (KeySlotTable.newInitial_eq_ok_iff crates _ _ _ _).mpr ⟨slot, created, rfl⟩
  refine ⟨_, ?_, _, rfl, KeySlotTable.Owned.of_newInitial made, ?_,
    List.cons_subset.mpr ⟨member, List.nil_subset used⟩⟩
  · rw [AegisVault.sealSlots, Method.self_bind]
    simp only [Method.bind_apply, Method.lift_apply, AegisKey.expose_new32,
      U8Array.copyFromSlice_val, made, Method.update_apply]
  · intro other inTable
    rw [List.mem_singleton.mp inTable]
    exact KeySlot.create_enabled crates created

theorem init_follows (mirrors : Mirrors crates used disk files) (able : Able crates used)
    (named : ∀ wish, request (ascii "init") args = some wish → passphrasesOf wish ⊆ used) :
    Follows crates used disk files (request (ascii "init") args)
      (initCommand crates args draws) := by
  constructor
  · intro wish next asked done
    have member := named wish asked
    obtain ⟨pass, passGiven, out, outGiven, rfl⟩ := request_init_iff.mp asked
    have inUse : pass ∈ used := member (List.mem_singleton_self pass)
    obtain ⟨hierarchy, unlocked⟩ := unlock_root able inUse
    obtain ⟨table, sealing, holds⟩ :=
      sealSlots_root able inUse (rootOf crates pass) hierarchy draws.table
    exact ⟨_, initCommand_eq_ok_iff.mpr ⟨pass, passGiven, out, outGiven, _, unlocked, (), _,
      sealing, table, rfl,
      mirrors.not_refused done, rfl⟩, mirrors.put holds done⟩
  · intro after done
    obtain ⟨pass, passGiven, out, outGiven, _, _, _, _, _, _, _, writable, _⟩ :=
      initCommand_eq_ok_iff.mp done
    obtain ⟨next, put⟩ := mirrors.putable writable (.vault (rootOf crates pass) [pass])
    exact ⟨_, next, request_init_iff.mpr ⟨pass, passGiven, out, outGiven, rfl⟩, put⟩

theorem addSlot_member (able : Able crates used) {newp : Str} (newpUsed : newp ∈ used)
    {master : U8Array MASTER_LEN} {members : List Str} {table : KeySlotTable} {file : Str}
    (kept : Kept crates file master used ⟨disk, members⟩ table)
    (room : members.length < MAX_SLOTS) (hierarchy : KeyHierarchy) (draws : TableDraws) :
    ∃ idx grown,
      AegisVault.addSlot crates newp draws ⟨AegisKey.new32 master, hierarchy, some table⟩ =
        (.ok idx, ⟨AegisKey.new32 master, hierarchy, some grown⟩) ∧
      Holds crates used (.vault master (members ++ [newp]))
        (vaultFile (grown.toBytes crates) grown.headerSalt) := by
  obtain ⟨slot, created⟩ := able.creates newpUsed master draws.slot
  have free : table.slots.length < MAX_SLOTS := kept.owned.count ▸ room
  have added : KeySlotTable.addSlot crates master newp draws.slot table =
      (.ok table.slots.length, { table with slots := table.slots ++ [slot] }) := by
    rw [KeySlotTable.addSlot_eq, if_neg (Nat.not_le.mpr free), created]
  refine ⟨table.slots.length, { table with slots := table.slots ++ [slot] }, ?_, _, rfl,
    kept.owned.append free created, ?_, ?_⟩
  · rw [AegisVault.addSlot, Method.self_bind]
    simp only [Method.bind_apply, Method.lift_apply, AegisKey.expose_new32,
      U8Array.copyFromSlice_val, AegisVault.onTable, added]
  · intro other inTable
    rcases List.mem_append.mp inTable with before | new
    · exact kept.enabled other before
    · rw [List.mem_singleton.mp new]
      exact KeySlot.create_enabled crates created
  · exact List.append_subset.mpr ⟨kept.inUse, List.cons_subset.mpr ⟨newpUsed, List.nil_subset used⟩⟩

theorem add_follows (mirrors : Mirrors crates used disk files) (able : Able crates used)
    (authentic : Authentic crates used disk files)
    (named : ∀ wish, request (ascii "add") args = some wish → passphrasesOf wish ⊆ used) :
    Follows crates used disk files (request (ascii "add") args) (addCommand crates args draws) := by
  constructor
  · intro wish next asked done
    have member := named wish asked
    obtain ⟨pass, passGiven, newp, newpGiven, file, fileGiven, rfl⟩ := request_add_iff.mp asked
    have newpUsed : newp ∈ used := member (List.mem_cons_of_mem _ (List.mem_singleton_self newp))
    obtain ⟨master, members, found, opener, room, put⟩ := Cabinet.perform_enroll_iff.mp done
    have accessed := Cabinet.access_eq_some_iff.mpr ⟨members, found, opener⟩
    obtain ⟨hierarchy, again, table, _, same, kept, opened⟩ :=
      mirrors.openVault_of_access able authentic accessed
    rw [found, Option.some.injEq] at same
    cases same
    obtain ⟨idx, grown, added, holds⟩ :=
      addSlot_member able newpUsed kept room hierarchy draws.table
    exact ⟨_, addCommand_eq_ok_iff.mpr ⟨pass, passGiven, newp, newpGiven, file, fileGiven, _,
      opened, idx, _, added,
      grown, rfl, mirrors.not_refused put, rfl⟩, mirrors.put holds put⟩
  · intro after done
    obtain ⟨pass, passGiven, newp, newpGiven, file, fileGiven, v, opened, idx, v', added, _, _,
      writable, _⟩ :=
      addCommand_eq_ok_iff.mp done
    have asked := request_add_iff.mpr ⟨pass, passGiven, newp, newpGiven, file, fileGiven, rfl⟩
    have passUsed : pass ∈ used := named _ asked List.mem_cons_self
    obtain ⟨master, accessed⟩ := mirrors.access_of_openVault able authentic passUsed opened
    obtain ⟨hierarchy, members, table, _, found, kept, again⟩ :=
      mirrors.openVault_of_access able authentic accessed
    rw [opened] at again
    cases again
    obtain ⟨_, _, ⟨same, slot, held, room, _⟩ | ⟨_, empty, _⟩⟩ := AegisVault.addSlot_ok added
    · cases held
      obtain ⟨next, put⟩ := mirrors.putable writable (.vault master (members ++ [newp]))
      obtain ⟨listed, here, opener⟩ := Cabinet.access_eq_some_iff.mp accessed
      rw [found, Option.some.injEq] at here
      cases here
      have free : members.length < MAX_SLOTS := kept.owned.count.symm ▸ room
      exact ⟨_, next, asked, Cabinet.perform_enroll_iff.mpr
        ⟨master, members, found, opener, free, put⟩⟩
    · cases empty

theorem seal_follows (mirrors : Mirrors crates used disk files) (able : Able crates used)
    (authentic : Authentic crates used disk files)
    (named : ∀ wish, request (ascii "seal") args = some wish → passphrasesOf wish ⊆ used) :
    Follows crates used disk files (request (ascii "seal") args)
      (sealCommand crates args draws) := by
  constructor
  · intro wish next asked done
    obtain ⟨pass, passGiven, file, fileGiven, inp, inpGiven, outp, outGiven, rfl⟩ :=
      request_seal_iff.mp asked
    obtain ⟨master, content, accessed, found, put⟩ := Cabinet.perform_wrap_iff.mp done
    obtain ⟨hierarchy, _, table, derived, _, _, opened⟩ :=
      mirrors.openVault_of_access able authentic accessed
    obtain ⟨data, read, holds⟩ := mirrors.present inp content found
    obtain ⟨key, keyed⟩ := bulk_key derived
    obtain ⟨ct, encrypted⟩ :=
      Option.ne_none_iff_exists'.mp (authentic.encrypts inp data read key (draws.fill 24))
    have sealing := (encrypt_eq_ok_iff (keyed (some table)) data AAD _ ct .xChaCha20Poly1305
      draws.fill).mpr ⟨rfl, encrypted⟩
    have sealed : SealedUnder crates master data (sealedBlob _ ct) :=
      ⟨hierarchy, derived, sealed_iff.mpr ⟨draws.fill, _, ct, sealing, rfl⟩⟩
    have wrapped : Holds crates used (.sealed master content) (sealedBlob _ ct) :=
      ⟨data, sealed, holds⟩
    exact ⟨_, sealCommand_eq_ok_iff.mpr ⟨pass, passGiven, file, fileGiven, inp, inpGiven, outp,
      outGiven, _, opened,
      data, read, _, ct, sealing, mirrors.not_refused put, rfl⟩, mirrors.put wrapped put⟩
  · intro after done
    obtain ⟨pass, passGiven, file, fileGiven, inp, inpGiven, outp, outGiven, v, opened, data, read,
      _, _, _, writable, _⟩ :=
      sealCommand_eq_ok_iff.mp done
    have asked := request_seal_iff.mpr ⟨pass, passGiven, file, fileGiven, inp, inpGiven, outp,
      outGiven, rfl⟩
    have passUsed : pass ∈ used := named _ asked List.mem_cons_self
    obtain ⟨master, accessed⟩ := mirrors.access_of_openVault able authentic passUsed opened
    obtain ⟨content, found⟩ := mirrors.found_of_file read
    obtain ⟨next, put⟩ := mirrors.putable writable (.sealed master content)
    exact ⟨_, next, asked, Cabinet.perform_wrap_iff.mpr ⟨master, content, accessed, found, put⟩⟩

theorem openCommand_reads {args : Args} (done : openCommand crates args disk = (.ok (), after)) :
    ∃ pass file inp outp v blob, FileFlags args pass file inp outp ∧
      openVault crates file pass disk = (.ok v, disk) ∧ disk.files inp = .ok blob := by
  simp only [openCommand, req_bind_eq_ok_iff, openVault_bind_eq_ok_iff,
    readFile_bind_eq_ok_iff] at done
  obtain ⟨pass, passGiven, file, fileGiven, inp, inpGiven, outp, outGiven, v, opened, blob,
    read, _⟩ := done
  exact ⟨pass, file, inp, outp, v, blob, ⟨passGiven, fileGiven, inpGiven, outGiven⟩, opened, read⟩

theorem open_follows (mirrors : Mirrors crates used disk files) (able : Able crates used)
    (authentic : Authentic crates used disk files)
    (named : ∀ wish, request (ascii "open") args = some wish → passphrasesOf wish ⊆ used) :
    Follows crates used disk files (request (ascii "open") args) (openCommand crates args) := by
  constructor
  · intro wish next asked done
    obtain ⟨pass, passGiven, file, fileGiven, inp, inpGiven, outp, outGiven, rfl⟩ :=
      request_open_iff.mp asked
    have flags : FileFlags args pass file inp outp :=
      ⟨given_eq_some_iff.mp passGiven, given_eq_some_iff.mp fileGiven,
      given_eq_some_iff.mp inpGiven, given_eq_some_iff.mp outGiven⟩
    obtain ⟨master, inner, accessed, found, put⟩ := Cabinet.perform_unwrap_iff.mp done
    obtain ⟨hierarchy, _, table, derived, _, _, opened⟩ :=
      mirrors.openVault_of_access able authentic accessed
    obtain ⟨blob, read, raw, ⟨again, derivedAgain, sealed⟩, holds⟩ := mirrors.present inp _ found
    rw [derived, Outcome.ok.injEq] at derivedAgain
    subst derivedAgain
    obtain ⟨nonce, ct, length, same, decrypted⟩ := sealed_decrypts able.opens sealed
    refine ⟨_, (openCommand_eq_ok_iff crates flags opened read).mpr
      ⟨0, nonce, ct, raw, ?_, ?_, decrypted, mirrors.not_refused put, rfl⟩, mirrors.put holds put⟩
    · rw [length]
      decide
    · rw [length]
      exact same
  · intro after done
    obtain ⟨pass, file, inp, outp, v, blob, flags, opened, read⟩ := openCommand_reads done
    obtain ⟨first, nonce, ct, pt, short, same, decrypted, writable, _⟩ :=
      (openCommand_eq_ok_iff crates flags opened read).mp done
    have asked := request_open_iff.mpr ⟨pass, given_eq_some_iff.mpr flags.pass, file,
      given_eq_some_iff.mpr flags.file,
      inp, given_eq_some_iff.mpr flags.inp, outp, given_eq_some_iff.mpr flags.outp, rfl⟩
    have passUsed : pass ∈ used := named _ asked List.mem_cons_self
    obtain ⟨master, accessed⟩ := mirrors.access_of_openVault able authentic passUsed opened
    obtain ⟨hierarchy, members, table, derived, vault, kept, again⟩ :=
      mirrors.openVault_of_access able authentic accessed
    rw [opened] at again
    cases again
    obtain ⟨content, found⟩ := mirrors.found_of_file read
    obtain ⟨inner, rfl⟩ := authentic.blobs file table master members inp content blob pt
      kept.storedTable_eq vault found read
      ⟨hierarchy, first, nonce, ct, derived, short, same, decrypted⟩
    obtain ⟨next, put⟩ := mirrors.putable writable inner
    exact ⟨_, next, asked, Cabinet.perform_unwrap_iff.mpr ⟨master, inner, accessed, found, put⟩⟩

theorem verifyVolume_checked {v : AegisVault} {raw : U8Array MASTER_LEN} {table : KeySlotTable}
    (master : v.master = AegisKey.new32 raw) (held : v.slots = some table)
    (checked : volumeVerifier crates raw = table.verifier) :
    (v.verifyVolume crates : Outcome Failure Bool) = .ok true := by
  unfold AegisVault.verifyVolume
  simp only [held, master, AegisKey.expose_new32, U8Array.copyFromSlice_val,
    Outcome.ok_bind, checked, beq_self_eq_true, Outcome.pure_eq]

theorem verify_follows (mirrors : Mirrors crates used disk files) (able : Able crates used)
    (authentic : Authentic crates used disk files)
    (named : ∀ wish, request (ascii "verify") args = some wish → passphrasesOf wish ⊆ used) :
    Follows crates used disk files (request (ascii "verify") args) (verifyCommand crates args) := by
  constructor
  · intro wish next asked done
    obtain ⟨pass, passGiven, file, fileGiven, rfl⟩ := request_verify_iff.mp asked
    obtain ⟨⟨master, accessed⟩, rfl⟩ := Cabinet.perform_check_iff.mp done
    obtain ⟨hierarchy, _, table, _, _, kept, opened⟩ :=
      mirrors.openVault_of_access able authentic accessed
    have verified : (AegisVault.mk (AegisKey.new32 master) hierarchy (some table)).verifyVolume
      crates =
        (.ok true : Outcome Failure Bool) := verifyVolume_checked rfl rfl kept.owned.verifier.symm
    exact ⟨disk, verifyCommand_eq_ok_iff.mpr ⟨pass, passGiven, file, fileGiven, _, opened, true,
      verified, rfl, rfl⟩,
      mirrors⟩
  · intro after done
    obtain ⟨pass, passGiven, file, fileGiven, v, opened, _⟩ := verifyCommand_eq_ok_iff.mp done
    have asked := request_verify_iff.mpr ⟨pass, passGiven, file, fileGiven, rfl⟩
    have passUsed : pass ∈ used := named _ asked List.mem_cons_self
    obtain ⟨master, accessed⟩ := mirrors.access_of_openVault able authentic passUsed opened
    exact ⟨_, files, asked, Cabinet.perform_check_iff.mpr ⟨⟨master, accessed⟩, rfl⟩⟩

theorem dispatch_follows (mirrors : Mirrors crates used disk files) (able : Able crates used)
    (authentic : Authentic crates used disk files) {command : Str}
    (named : ∀ wish, request command args = some wish → passphrasesOf wish ⊆ used) :
    Follows crates used disk files (request command args) (dispatch crates command args draws) := by
  unfold dispatch
  split
  next isInit => exact isInit ▸ init_follows mirrors able (isInit ▸ named)
  next notInit =>
  split
  next isAdd => exact isAdd ▸ add_follows mirrors able authentic (isAdd ▸ named)
  next notAdd =>
  split
  next isSeal => exact isSeal ▸ seal_follows mirrors able authentic (isSeal ▸ named)
  next notSeal =>
  split
  next isOpen => exact isOpen ▸ open_follows mirrors able authentic (isOpen ▸ named)
  next notOpen =>
  split
  next isVerify => exact isVerify ▸ verify_follows mirrors able authentic (isVerify ▸ named)
  next notVerify =>
  have nothing : request command args = none := by
    rw [request, if_neg notInit, if_neg notAdd, if_neg notSeal, if_neg notOpen, if_neg notVerify]
  rw [nothing]
  constructor
  · intro wish next impossible
    cases impossible
  · intro after impossible
    cases impossible

end SoteriaAegis.Cli
