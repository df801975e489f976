import SoteriaAegis.Cli.Sessions
import SoteriaAegis.Vault.Binding

/-! What one member seals with the program, every member opens with it. -/

namespace SoteriaAegis.Cli
open Rust Crypto Slots Vault

/-- Along the run, no slot in the file opens for a key other than that of the passphrase in use it
was made with. -/
def RejectsAlong (crates : Crates) (file : Str) (used : List Str) (session : Session)
    (adds : List (Invocation (ascii "add"))) : Prop :=
  ∀ state table, Visits (addStep crates file) session adds state → storedTable crates file state.disk = some table →
    ∀ slot ∈ table.slots, RejectsOtherKeys crates used slot

def apartAlong (crates : Crates) (file : Str) (used : List Str) (session : Session)
    (adds : List (Invocation (ascii "add"))) : Bool :=
  adds.inits.all fun initial => (run (addStep crates file) session initial).all fun state =>
    (storedTable crates file state.disk).all fun table => table.slots.all (KeySlot.apart crates used)

variable {crates : Crates}

theorem rejectsAlong_of_check (opens : crates.OpensSealed) {file : Str} {used : List Str} {session : Session}
    {adds : List (Invocation (ascii "add"))} (passed : apartAlong crates file used session adds = true) :
    RejectsAlong crates file used session adds := by
  intro state table visits stored slot member
  have here := visits.passes passed
  rw [stored] at here
  exact (KeySlot.apart_spec opens (List.all_eq_true.mp here slot member)).2

theorem Kept.write_other {file other : Str} {master : U8Array MASTER_LEN} {used : List Str} {session : Session}
    {table : KeySlotTable} (kept : Kept crates file master used session table) (differ : other ≠ file)
    (bytes : List UInt8) : Kept crates file master used ⟨session.disk.write other bytes, session.members⟩ table := by
  refine ⟨?_, kept.owned, kept.enabled, kept.inUse⟩
  rw [Disk.write_other _ (Ne.symm differ)]
  exact kept.stored

theorem bulk_key {master : U8Array MASTER_LEN} {hierarchy : KeyHierarchy}
    (derived : KeyHierarchy.fromMaster crates master.val = .ok hierarchy) :
    ∃ key, ∀ table, (AegisVault.mk (AegisKey.new32 master) hierarchy table).domain .enc = AegisKey.new32 key := by
  obtain ⟨key, _, same⟩ := derive_ok crates (KeyHierarchy.domain_of_fromMaster crates derived .enc)
  exact ⟨key, fun _ => same⟩

theorem decrypt_encrypted (opens : crates.OpensSealed) {v w : AegisVault} {key : U8Array 32}
    (sealKey : v.domain .enc = AegisKey.new32 key) (openKey : w.domain .enc = AegisKey.new32 key)
    {data aad : List UInt8}
    (encrypts : ∀ key nonce, crates.xChaChaEncrypt key nonce data aad ≠ none) (fill : OsFill) :
    ∃ ct, v.encrypt crates .enc data aad .xChaCha20Poly1305 fill = .ok ((fill 24).val, ct) ∧
      w.decrypt crates .enc (fill 24).val ct aad .xChaCha20Poly1305 = .ok data := by
  obtain ⟨ct, done⟩ := Option.ne_none_iff_exists'.mp (encrypts key (fill 24))
  refine ⟨ct, (encrypt_eq_ok_iff sealKey _ _ _ _ _ _).mpr ⟨rfl, done⟩, ?_⟩
  rw [decrypt_eq openKey]
  have opening := AeadCipher.aeadOpen_val crates (AeadCipher.new .xChaCha20Poly1305 key) (fill 24) ct aad
  refine opening.trans ?_
  rw [Outcome.okOr_eq_ok_iff]
  exact opens.xChaCha key (fill 24) data aad ct done

/-- After one `init` and any `add` processes, what a member seals is what every member opens,
whatever `add` processes ran in between. -/
theorem members_read_sealed (opens : crates.OpensSealed) (expands : crates.ExpandsShort) {root : AegisKey}
    (derives : argon2idRoot crates (ascii "ignored") MASTER_SALT MEM_KIB ITERS = .ok root)
    {initial : Invocation (ascii "init")} {blank started : Disk} {first file : Str}
    (made : initial.exec crates blank = (.ok (), started)) (firstGiven : initial.args (ascii "p") = some first)
    (fileGiven : initial.args (ascii "o") = some file) (early late : List (Invocation (ascii "add")))
    {before after : Session} {sealed : Disk}
    (ranEarly : run (addStep crates file) ⟨started, [first]⟩ early = some before)
    (sealing : Invocation (ascii "seal")) (opening : Invocation (ascii "open")) {p q inp blob out : Str}
    (sealFlags : FileFlags sealing.args p file inp blob) (openFlags : FileFlags opening.args q file blob out)
    (separate : blob ≠ file) {data : List UInt8} (readable : before.disk.files inp = .ok data)
    (encrypts : ∀ key nonce, crates.xChaChaEncrypt key nonce data AAD ≠ none)
    (blobWritable : before.disk.refusals blob = none) (outWritable : before.disk.refusals out = none)
    (left : (sealing.exec crates before.disk).2 = sealed)
    (ranLate : run (addStep crates file) ⟨sealed, before.members⟩ late = some after)
    (sealer : p ∈ before.members) (opener : q ∈ after.members)
    (rejectsEarly : RejectsAlong crates file (first :: (early ++ late).flatMap Invocation.passphrases)
      ⟨started, [first]⟩ early)
    (rejectsLate : RejectsAlong crates file (first :: (early ++ late).flatMap Invocation.passphrases)
      ⟨sealed, before.members⟩ late) :
    (sealing.exec crates before.disk).1 = .ok () ∧
      ∃ opened, opening.exec crates after.disk = (.ok (), opened) ∧ opened.files out = .ok data := by
  have earlyNamed : early.flatMap Invocation.passphrases ⊆
      first :: (early ++ late).flatMap Invocation.passphrases := by
    rw [List.flatMap_append]
    exact List.subset_cons_of_subset _ (List.subset_append_left _ _)
  have lateNamed : late.flatMap Invocation.passphrases ⊆
      first :: (early ++ late).flatMap Invocation.passphrases := by
    rw [List.flatMap_append]
    exact List.subset_cons_of_subset _ (List.subset_append_right _ _)
  obtain ⟨master, initialTable, keptInitial⟩ := Kept.of_init made firstGiven fileGiven List.mem_cons_self
  obtain ⟨hierarchy, derived⟩ := KeyHierarchy.fromMaster_total crates expands master.val
  obtain ⟨ignored, unlocked⟩ := ignored_unlocks crates expands derives
  obtain ⟨key, keyed⟩ := bulk_key derived
  obtain ⟨table, kept⟩ := keptInitial.visited opens earlyNamed rejectsEarly (Visits.last ranEarly)
  have rejects := rejectsEarly before table (Visits.last ranEarly) kept.storedTable_eq
  have sealerOpens := kept.member_opens opens rejects unlocked derived sealer
  obtain ⟨ct, encrypted, decrypted⟩ :=
    decrypt_encrypted opens (keyed (some table)) (keyed none) encrypts sealing.draws.fill
  have sealedOk : sealing.exec crates before.disk =
      (.ok (), before.disk.write blob (sealedBlob (sealing.draws.fill 24).val ct)) := by
    rw [sealing.exec_eq]
    exact sealCommand_of_open crates sealFlags sealerOpens readable encrypted blobWritable
  rw [sealedOk] at left
  subst left
  refine ⟨congrArg Prod.fst sealedOk, ?_⟩
  obtain ⟨lateTable, keptLate⟩ :=
    (kept.write_other separate _).visited opens lateNamed rejectsLate (Visits.last ranLate)
  have rejects := rejectsLate after lateTable (Visits.last ranLate) keptLate.storedTable_eq
  have openerOpens := keptLate.member_opens opens rejects unlocked derived opener
  obtain ⟨stored, refusals⟩ := visited_unchanged crates (Disk.write_same before.disk blob _)
    (sealedBlob_ne_vaultFile _ _) (Visits.last ranLate)
  have short : (sealing.draws.fill 24).val.length < 256 := by
    rw [U8Array.length_val]
    decide
  rw [Disk.write_refusals] at refusals
  have writable : after.disk.refusals out = none := by rw [refusals, outWritable]
  refine ⟨after.disk.write out data, ?_, Disk.write_same _ _ _⟩
  rw [opening.exec_eq]
  exact openCommand_of_blob crates openFlags short openerOpens stored decrypted writable

def Invocation.ofFlags (command : Str) (flags : List Str) : Invocation command :=
  ⟨ascii "aegis" :: command :: flags, parseFlags (fun _ => none) flags, rfl, ⟨TableDraws.blank, U8Array.zeros⟩⟩

def initAlice : Invocation (ascii "init") :=
  .ofFlags _ [ascii "-p", ascii "alice", ascii "-o", ascii "vault"]

def addBob : Invocation (ascii "add") :=
  .ofFlags _ [ascii "-p", ascii "alice", ascii "-n", ascii "bob", ascii "-f", ascii "vault"]

def addCarol : Invocation (ascii "add") :=
  .ofFlags _ [ascii "-p", ascii "bob", ascii "-n", ascii "carol", ascii "-f", ascii "vault"]

def sealAsBob : Invocation (ascii "seal") :=
  .ofFlags _ [ascii "-p", ascii "bob", ascii "-f", ascii "vault", ascii "-i", ascii "letter", ascii "-o", ascii "blob"]

def openAsCarol : Invocation (ascii "open") :=
  .ofFlags _ [ascii "-p", ascii "carol", ascii "-f", ascii "vault", ascii "-i", ascii "blob", ascii "-o", ascii "copy"]

def letterDisk : Disk := ⟨fun path => if path = ascii "letter" then .ok (ascii "dear") else .error [], fun _ => none⟩

theorem members_read_sealed_late : ∃ started before sealed after opened,
    initAlice.exec checksumCrates letterDisk = (.ok (), started) ∧
    run (addStep checksumCrates (ascii "vault")) ⟨started, [ascii "alice"]⟩ [addBob] = some before ∧
    sealAsBob.exec checksumCrates before.disk = (.ok (), sealed) ∧
    run (addStep checksumCrates (ascii "vault")) ⟨sealed, before.members⟩ [addCarol] = some after ∧
    openAsCarol.exec checksumCrates after.disk = (.ok (), opened) ∧ opened.files (ascii "copy") = .ok (ascii "dear") := by
  have initialized : (initAlice.exec checksumCrates letterDisk).1 = .ok () := by decide +kernel
  have made : initAlice.exec checksumCrates letterDisk = (.ok (), (initAlice.exec checksumCrates letterDisk).2) :=
    Method.eq_of_fst _ initialized
  have reached : ((run (addStep checksumCrates (ascii "vault"))
      ⟨(initAlice.exec checksumCrates letterDisk).2, [ascii "alice"]⟩ [addBob]).any fun before =>
      (run (addStep checksumCrates (ascii "vault"))
        ⟨(sealAsBob.exec checksumCrates before.disk).2, before.members⟩ [addCarol]).any fun after =>
        ascii "bob" ∈ before.members ∧ ascii "carol" ∈ after.members ∧
        before.disk.files (ascii "letter") = .ok (ascii "dear") ∧ before.disk.refusals (ascii "blob") = none ∧
        before.disk.refusals (ascii "copy") = none ∧
        apartAlong checksumCrates (ascii "vault")
          (ascii "alice" :: ([addBob] ++ [addCarol]).flatMap Invocation.passphrases)
          ⟨(initAlice.exec checksumCrates letterDisk).2, [ascii "alice"]⟩ [addBob] = true ∧
        apartAlong checksumCrates (ascii "vault")
          (ascii "alice" :: ([addBob] ++ [addCarol]).flatMap Invocation.passphrases)
          ⟨(sealAsBob.exec checksumCrates before.disk).2, before.members⟩ [addCarol] = true) = true := by
    decide +kernel
  obtain ⟨before, ranEarly, reached⟩ := (Option.any_eq_true _ _).mp reached
  obtain ⟨after, ranLate, reached⟩ := (Option.any_eq_true _ _).mp reached
  obtain ⟨sealer, opener, readable, blobWritable, copyWritable, early, late⟩ := of_decide_eq_true reached
  have derives : ∃ root, argon2idRoot checksumCrates (ascii "ignored") MASTER_SALT MEM_KIB ITERS = .ok root :=
    ⟨_, rfl⟩
  obtain ⟨root, derived⟩ := derives
  have sealFlags : FileFlags sealAsBob.args (ascii "bob") (ascii "vault") (ascii "letter") (ascii "blob") := by
    constructor <;> decide
  have openFlags : FileFlags openAsCarol.args (ascii "carol") (ascii "vault") (ascii "blob") (ascii "copy") := by
    constructor <;> decide
  have read := members_read_sealed checksumCrates_opensSealed checksumCrates_expandsShort derived made rfl rfl
    [addBob] [addCarol] ranEarly sealAsBob openAsCarol sealFlags openFlags (by decide) readable
    (fun _ _ => Option.some_ne_none _) blobWritable copyWritable rfl ranLate sealer opener
    (rejectsAlong_of_check checksumCrates_opensSealed early) (rejectsAlong_of_check checksumCrates_opensSealed late)
  obtain ⟨sealedOk, opened, openedOk, copied⟩ := read
  exact ⟨_, before, _, after, opened, made, ranEarly, Method.eq_of_fst _ sealedOk, ranLate, openedOk, copied⟩

end SoteriaAegis.Cli
