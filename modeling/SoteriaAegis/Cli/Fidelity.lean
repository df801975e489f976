import SoteriaAegis.Cli.Granted
import SoteriaAegis.Cli.Frame

/-! Whole sessions of processes, failing ones included: the disk is what the requests make of the
cabinet. -/

namespace SoteriaAegis.Cli
open Rust Crypto Slots Vault Access
variable {crates : Crates} {used : List Str} {disk : Disk} {files : Files} {draws : Draws}

theorem main_follows (mirrors : Mirrors crates used disk files) (able : Able crates used)
    (authentic : Authentic crates used disk files) {argv : List Str}
    (named : ∀ wish, requestOf argv = some wish → passphrasesOf wish ⊆ used) :
    Follows crates used disk files (requestOf argv) (main crates draws argv) := by
  unfold requestOf at named ⊢
  cases parsed : parseArgs argv with
  | ok answer =>
    have same : main crates draws argv = dispatch crates answer.1 answer.2 draws := by
      unfold main
      rw [parsed]
      rfl
    rw [parsed] at named
    rw [same]
    exact dispatch_follows mirrors able authentic named
  | err failure =>
    constructor
    · intro wish next impossible
      cases impossible
    · intro after impossible
      unfold main at impossible
      rw [parsed] at impossible
      cases impossible
  | panic =>
    constructor
    · intro wish next impossible
      cases impossible
    · intro after impossible
      unfold main at impossible
      rw [parsed] at impossible
      cases impossible

namespace Follows
variable {argv : List Str}
  (follows : Follows crates used disk files (requestOf argv) (main crates draws argv))
include follows

theorem succeeds_iff : (main crates draws argv disk).1 = .ok () ↔
    ∃ wish next, requestOf argv = some wish ∧
    files.perform (rootOf crates) MAX_SLOTS wish = some next := by
  constructor
  · intro succeeded
    exact follows.refused _ (Method.eq_of_fst _ succeeded)
  · intro ⟨wish, next, asked, done⟩
    obtain ⟨after, ran, _⟩ := follows.granted wish next asked done
    rw [ran]

theorem mirrors_next (mirrors : Mirrors crates used disk files) :
    Mirrors crates used (main crates draws argv disk).2
      (files.step (rootOf crates) MAX_SLOTS (requestOf argv)) := by
  cases decided : (requestOf argv).bind (files.perform (rootOf crates) MAX_SLOTS) with
  | some next =>
    obtain ⟨wish, asked, done⟩ := Option.bind_eq_some_iff.mp decided
    obtain ⟨after, ran, mirrored⟩ := follows.granted wish next asked done
    rw [Cabinet.step, decided, ran]
    exact mirrored
  | none =>
    rw [Cabinet.step, decided]
    rcases main_atomic crates draws argv disk with ⟨value, succeeded⟩ | unchanged
    · obtain ⟨wish, next, asked, done⟩ := follows.refused _ (Method.eq_of_fst _ succeeded)
      rw [asked, Option.bind_some, done] at decided
      cases decided
    · rw [unchanged]
      exact mirrors

end Follows

structure Launch where
  draws : Draws
  argv : List Str

/-- A process runs on the disk, and its request is put to the cabinet. -/
def sessionStep (crates : Crates) (state : Disk × Files) (launch : Launch) :
    Option (Disk × Files) :=
  some ((main crates launch.draws launch.argv state.1).2,
    state.2.step (rootOf crates) MAX_SLOTS (requestOf launch.argv))

section
variable (able : Able crates used) (mirrors : Mirrors crates used disk files)
  {launches : List Launch}
  (named : ∀ launch ∈ launches, ∀ wish, requestOf launch.argv = some wish →
    passphrasesOf wish ⊆ used)
  (authentic : ∀ state, Visits (sessionStep crates) (disk, files) launches state →
    Authentic crates used state.1 state.2)
include able mirrors named authentic

theorem session_mirrors {state : Disk × Files}
    (visits : Visits (sessionStep crates) (disk, files) launches state) :
    Mirrors crates used state.1 state.2 := by
  apply visits_induction (fun state => Mirrors crates used state.1 state.2) mirrors _ visits
  intro before launch next taken agrees stepped
  cases stepped
  exact (main_follows agrees able (authentic before taken.visits)
    (named launch taken.mem)).mirrors_next agrees

end

/-- Along every session, failing processes included, the disk is what the requests make of the
cabinet, and a process succeeds exactly when its request is granted. -/
theorem session_faithful (able : Able crates used) (mirrors : Mirrors crates used disk files)
    {launches : List Launch}
    (named : ∀ launch ∈ launches, ∀ wish, requestOf launch.argv = some wish →
      passphrasesOf wish ⊆ used)
    (authentic : ∀ state, Visits (sessionStep crates) (disk, files) launches state →
      Authentic crates used state.1 state.2) :
    (∀ state, Visits (sessionStep crates) (disk, files) launches state →
      Mirrors crates used state.1 state.2) ∧
      ∀ state launch, Takes (sessionStep crates) (disk, files) launches state launch →
        ((main crates launch.draws launch.argv state.1).1 = .ok () ↔ ∃ wish next,
          requestOf launch.argv = some wish ∧
          state.2.perform (rootOf crates) MAX_SLOTS wish = some next) := by
  refine ⟨fun state visits => session_mirrors able mirrors named authentic visits,
    fun state launch taken => ?_⟩
  have agrees := session_mirrors able mirrors named authentic taken.visits
  exact (main_follows agrees able (authentic state taken.visits)
    (named launch taken.mem)).succeeds_iff

theorem OpensUnder.nonce_length {master : U8Array MASTER_LEN} {pt blob : List UInt8}
    (opens : OpensUnder crates master pt blob) : blob[1]? = some 24 := by
  obtain ⟨hierarchy, first, nonce, ct, _, _, rfl, decrypted⟩ := opens
  obtain ⟨raw, copied, _⟩ := (Outcome.bind_eq_ok_iff _ _ _).mp decrypted
  have keyed : (AegisVault.mk (AegisKey.new32 master) hierarchy none).domain .enc =
    AegisKey.new32 raw :=
    congrArg AegisKey.mk ((U8Array.copyFromSlice_eq_ok_iff _ _).mp copied).symm
  rw [decrypt_eq keyed, AeadCipher.aeadOpen_eq] at decrypted
  split at decrypted
  next fits =>
    have length : nonce.length = 24 := fits
    rw [length]
    rfl
  next => cases decrypted

def authenticOn (crates : Crates) (used names : List Str) (state : Disk × Files) : Bool :=
  names.all fun file => (storedTable crates file state.1).all fun table =>
    table.slots.all (KeySlot.apart crates used) && names.all fun path =>
      match state.2.files file, state.2.files path with
      | some (.vault master _), some (.sealed other _) => other == master
      | some (.vault _ _), some _ => (state.1.files path).toOption.all fun bytes =>
        bytes[1]? != some 24
      | _, _ => true

def Confined (names : List Str) (disk : Disk) : Prop :=
  ∀ path bytes, disk.files path = .ok bytes → path ∈ names

theorem Confined.next {names : List Str} (confined : Confined names disk) {argv : List Str}
    (targets : ∀ path, targetOf argv = some path → path ∈ names) :
    Confined names (main crates draws argv disk).2 := by
  intro path bytes read
  rcases main_writes crates draws argv disk with unchanged | ⟨place, content, aimed, written⟩
  · rw [unchanged] at read
    exact confined path bytes read
  · rw [written] at read
    by_cases same : path = place
    · rw [same]
      exact targets place aimed
    · rw [Disk.write_other disk same] at read
      exact confined path bytes read

theorem authentic_of_check {names : List Str} (opens : crates.OpensSealed)
    (encrypts : ∀ key nonce msg aad, crates.xChaChaEncrypt key nonce msg aad ≠ none)
    (confined : Confined names disk) (passed : authenticOn crates used names (disk, files) = true) :
    Authentic crates used disk files := by
  have checked : ∀ file table, storedTable crates file disk = some table →
    (∀ slot ∈ table.slots, slot.apart crates used = true) ∧
      ∀ path ∈ names, (match files.files file, files.files path with
        | some (.vault master _), some (.sealed other _) => other == master
        | some (.vault _ _), some _ => (disk.files path).toOption.all fun bytes =>
          bytes[1]? != some 24
        | _, _ => true) = true := by
    intro file table stored
    obtain ⟨_, _, content, _⟩ := storedTable_eq_some_iff.mp stored
    have here := List.all_eq_true.mp passed file (confined file _ content)
    rw [stored] at here
    obtain ⟨slots, blobs⟩ := (Bool.and_eq_true _ _).mp here
    exact ⟨List.all_eq_true.mp slots, List.all_eq_true.mp blobs⟩
  refine ⟨?_, ?_, fun _ bytes _ key nonce => encrypts key nonce bytes AAD⟩
  · intro file table stored slot inTable
    exact KeySlot.apart_spec opens ((checked file table stored).1 slot inTable)
  · intro file table master members path content bytes pt stored vault found read opened
    have here := (checked file table stored).2 path (confined path bytes read)
    have length := opened.nonce_length
    rw [vault, found] at here
    cases content with
    | plain data =>
      simp [read, Except.toOption, length] at here
    | vault other listed =>
      simp [read, Except.toOption, length] at here
    | sealed other inner =>
      exact ⟨inner, by rw [eq_of_beq here]⟩

theorem checksumCrates_able (used : List Str) : Able checksumCrates used := by
  refine ⟨checksumCrates_opensSealed, checksumCrates_expandsShort, checksumCrates_appendsTag, ?_,
    ?_, ?_⟩
  · intro pass member
    exact ⟨_, rfl⟩
  · intro pass member salt
    have long : 8 ≤ salt.val.length := by
      rw [U8Array.length_val]
      decide
    exact ⟨_, by simp only [argon2idRoot, checksumCrates, if_pos long]; rfl⟩
  · intro key nonce master
    exact Option.some_ne_none _

def letterFiles : Files :=
  ⟨fun path => if path = ascii "letter" then some (.plain (ascii "dear")) else none, fun _ => true⟩

/-- A vault is made, and used by a member who is added after a first try that fails. -/
def bobJoins : List Launch :=
  [initAlice.argv, openAsBob.argv, addBob.argv, sealAsBob.argv, openAsBob.argv].map
    (Launch.mk addBob.draws)

theorem letterDisk_mirrors (used : List Str) :
    Mirrors checksumCrates used letterDisk letterFiles := by
  refine ⟨?_, ?_, fun _ => iff_of_true rfl rfl⟩
  · intro path content found
    obtain ⟨isLetter, same⟩ := Option.ite_none_right_eq_some.mp found
    cases same
    refine ⟨ascii "dear", if_pos isLetter, rfl, fun slotBytes salt same => ?_⟩
    have heads := congrArg List.head? same
    have letter : (vaultFile slotBytes salt).head? = some 0x41 := rfl
    rw [letter] at heads
    cases heads
  · intro path absent bytes read
    by_cases isLetter : path = ascii "letter"
    · rw [show letterFiles.files path = some (.plain (ascii "dear")) from if_pos isLetter] at absent
      cases absent
    · rw [show letterDisk.files path = .error [] from if_neg isLetter] at read
      cases read

theorem bobJoins_confined {state : Disk × Files}
    (visits : Visits (sessionStep checksumCrates) (letterDisk, letterFiles) bobJoins state) :
    Confined [ascii "vault", ascii "letter", ascii "blob", ascii "copy"] state.1 := by
  apply visits_induction (fun state => Confined _ state.1) _ _ visits
  · intro path bytes read
    by_cases isLetter : path = ascii "letter"
    · rw [isLetter]
      decide
    · rw [show letterDisk.files path = .error [] from if_neg isLetter] at read
      cases read
  · intro before launch next taken held stepped
    cases stepped
    have aims : ∀ launch ∈ bobJoins, ((targetOf launch.argv).all fun path =>
        path ∈ [ascii "vault", ascii "letter", ascii "blob", ascii "copy"]) = true := by
      decide
    apply held.next
    intro path aimed
    have here := aims launch taken.mem
    rw [aimed] at here
    exact of_decide_eq_true here

theorem bobJoins_named : ∀ launch ∈ bobJoins, ∀ wish, requestOf launch.argv = some wish →
    passphrasesOf wish ⊆ [ascii "alice", ascii "bob"] := by
  have known : ∀ launch ∈ bobJoins, ((requestOf launch.argv).all fun wish =>
      passphrasesOf wish ⊆ [ascii "alice", ascii "bob"]) = true := by
    decide
  intro launch member wish asked
  have here := known launch member
  rw [asked] at here
  exact of_decide_eq_true here

theorem bobJoins_authentic {state : Disk × Files}
    (visits : Visits (sessionStep checksumCrates) (letterDisk, letterFiles) bobJoins state) :
    Authentic checksumCrates [ascii "alice", ascii "bob"] state.1 state.2 := by
  have checked : bobJoins.inits.all
    (fun initial => (run (sessionStep checksumCrates) (letterDisk, letterFiles)
      initial).all (authenticOn checksumCrates [ascii "alice", ascii "bob"]
        [ascii "vault", ascii "letter", ascii "blob", ascii "copy"])) = true := by
    decide +kernel
  exact authentic_of_check checksumCrates_opensSealed (fun _ _ _ _ => Option.some_ne_none _)
    (bobJoins_confined visits)
    (visits.passes checked)

theorem session_faithful_bob : ∃ final, run (sessionStep checksumCrates)
    (letterDisk, letterFiles) bobJoins = some final ∧
    Mirrors checksumCrates [ascii "alice", ascii "bob"] final.1 final.2 ∧
    final.1.files (ascii "copy") = .ok (ascii "dear") := by
  have reached : ((run (sessionStep checksumCrates) (letterDisk, letterFiles) bobJoins).any
    fun final =>
      (final.1.files (ascii "copy")).toOption = some (ascii "dear")) = true := by
    decide +kernel
  obtain ⟨final, ran, copied⟩ := (Option.any_eq_true _ _).mp reached
  obtain ⟨mirrored, _⟩ := session_faithful (checksumCrates_able _) (letterDisk_mirrors _)
    bobJoins_named
    fun state visits => bobJoins_authentic visits
  exact ⟨final, ran, mirrored final (Visits.last ran),
    toOption_eq_some_iff.mp (of_decide_eq_true copied)⟩

end SoteriaAegis.Cli
