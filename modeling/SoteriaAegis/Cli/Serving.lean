import SoteriaAegis.Cli.Tasks
import SoteriaAegis.Cli.Granted

/-! A command behind its flags. Each command first asks for its flags, in an order of its own, and
fails at the first that is missing. What it does then depends on the request alone: it computes the
bytes of one file from those of the files that it reads. -/

namespace SoteriaAegis.Cli
open Rust Crypto Slots Vault Access

def asked (args : Args) (key : Str) : Outcome Failure Str :=
  match given args key with
  | some value => .ok value
  | none => .err (.missing key)

def asks (command : Str) (args : Args) : Outcome Failure (Request Str Str) :=
  if command = ascii "init" then do
    let pass ← asked args (ascii "p")
    let out ← asked args (ascii "o")
    return .create pass out
  else if command = ascii "add" then do
    let pass ← asked args (ascii "p")
    let newp ← asked args (ascii "n")
    let file ← asked args (ascii "f")
    return .enroll pass newp file
  else if command = ascii "seal" then do
    let pass ← asked args (ascii "p")
    let file ← asked args (ascii "f")
    let inp ← asked args (ascii "i")
    let outp ← asked args (ascii "o")
    return .wrap pass file inp outp
  else if command = ascii "open" then do
    let pass ← asked args (ascii "p")
    let file ← asked args (ascii "f")
    let inp ← asked args (ascii "i")
    let outp ← asked args (ascii "o")
    return .unwrap pass file inp outp
  else if command = ascii "verify" then do
    let pass ← asked args (ascii "p")
    let file ← asked args (ascii "f")
    return .check pass file
  else .err (.unknownCommand command)

def FirstMissing (args : Args) : List Str → Failure → Prop
  | [], _ => False
  | key :: keys, failure =>
    given args key = none ∧ .missing key = failure ∨
      ∃ value, given args key = some value ∧ FirstMissing args keys failure

/-- `read_vault` behind the `fs::read`. -/
def parseVault (buf : List UInt8) : Outcome Failure (List UInt8 × U8Array 32) :=
  if buf.length < 5 + 1 + 32 then .err .vaultTooShort
  else do
    let magic ← sliceRange buf 0 5
    if magic ≠ MAGIC then .err .notAVault
    else do
      let version ← Outcome.index buf 5
      if version ≠ VERSION then .err .unsupportedVersion
      else do
        let saltBytes ← sliceRange buf 6 38
        let salt ← U8Array.copyFromSlice 32 saltBytes
        let slotBytes ← sliceRange buf 38 buf.length
        return (slotBytes, salt)

variable (crates : Crates)

def heldVault (pass : Str) (buf : List UInt8) : Outcome Failure AegisVault := do
  let (slotBytes, salt) ← parseVault buf
  let v ← Outcome.expect (AegisVault.unlock crates (ascii "ignored") MASTER_SALT MEM_KIB ITERS)
  let (_, v) ← ((AegisVault.openFromSlots crates slotBytes salt pass).on v).mapErr .cannotOpenVault
  return v

def savedVault (v : AegisVault) : Outcome Failure (List UInt8) := do
  let bytes ← Outcome.expectSome (v.slotsToBytes crates)
  let salt ← Outcome.expectSome v.slotsHeaderSalt
  return vaultFile bytes salt

def initBytes (draws : Draws) (pass : Str) : Outcome Failure (List UInt8) := do
  let v ← (AegisVault.unlock crates pass MASTER_SALT MEM_KIB ITERS).mapErr .keyDerivation
  let (_, v) ← ((AegisVault.sealSlots crates pass draws.table).on v).mapErr .sealFailed
  savedVault crates v

def addBytes (draws : Draws) (newp : Str) (v : AegisVault) : Outcome Failure (List UInt8) := do
  let (_, v) ← ((AegisVault.addSlot crates newp draws.table).on v).mapErr .addSlotFailed
  savedVault crates v

def sealBytes (draws : Draws) (v : AegisVault) (data : List UInt8) :
    Outcome Failure (List UInt8) := do
  let (nonce, ct) ← (v.encrypt crates .enc data AAD .xChaCha20Poly1305 draws.fill).mapErr
    .encryptFailed
  return sealedBlob nonce ct

def openBytes (v : AegisVault) (blob : List UInt8) : Outcome Failure (List UInt8) :=
  if blob.length < 2 then .err .blobTooShort
  else do
    let nlen ← Outcome.index blob 1
    if blob.length < 2 + nlen.toNat then .err .blobCorrupt
    else
      let nonce ← sliceRange blob 2 (2 + nlen.toNat)
      let ct ← sliceRange blob (2 + nlen.toNat) blob.length
      (v.decrypt crates .enc nonce ct AAD .xChaCha20Poly1305).mapErr .decryptFailed

def verdict (v : AegisVault) : Outcome Failure Unit := do
  let verified ← v.verifyVolume crates
  if verified then return () else .err .verifyFailed

/-- What a command does once it has its flags. -/
def serve (draws : Draws) : Request Str Str → Process Unit
  | .create pass out => do
    let bytes ← Method.lift (initBytes crates draws pass)
    writeFile out bytes
  | .enroll pass newp file => do
    let v ← openVault crates file pass
    let bytes ← Method.lift (addBytes crates draws newp v)
    writeFile file bytes
  | .wrap pass file inp out => do
    let v ← openVault crates file pass
    let data ← readFile inp
    let bytes ← Method.lift (sealBytes crates draws v data)
    writeFile out bytes
  | .unwrap pass file inp out => do
    let v ← openVault crates file pass
    let blob ← readFile inp
    let bytes ← Method.lift (openBytes crates v blob)
    writeFile out bytes
  | .check pass file => do
    let v ← openVault crates file pass
    Method.lift (verdict crates v)

variable {crates} {args : Args} {draws : Draws} {command : Str}

theorem req_eq_asked (args : Args) (key : Str) : req args key = Method.lift (asked args key) := by
  funext disk
  unfold asked
  cases found : given args key with
  | none => exact req_of_missing found disk
  | some value =>
    obtain ⟨present, notEmpty⟩ := given_eq_some_iff.mp found
    exact (req_eq_ok_iff args key value disk disk).mpr ⟨present, notEmpty, rfl⟩

theorem asked_toOption (args : Args) (key : Str) : (asked args key).toOption = given args key := by
  unfold asked
  cases given args key with
  | none => rfl
  | some value => rfl

theorem toOption_bind {α β : Type} (first : Outcome Failure α) (next : α → Outcome Failure β) :
    (first >>= next).toOption = first.toOption.bind fun value => (next value).toOption := by
  cases first with
  | ok value => rfl
  | err failure => rfl
  | panic => rfl

theorem asks_toOption (command : Str) (args : Args) :
    (asks command args).toOption = request command args := by
  unfold asks request
  simp only [apply_ite Outcome.toOption, toOption_bind, asked_toOption]
  rfl

theorem asks_eq_ok_iff {wish : Request Str Str} :
    asks command args = .ok wish ↔ request command args = some wish := by
  rw [← asks_toOption, Outcome.toOption_eq_some_iff]

theorem asked_bind_eq_err_iff {β : Type} {key : Str} {next : Str → Outcome Failure β}
    {failure : Failure} : (asked args key >>= next) = .err failure ↔
      given args key = none ∧ .missing key = failure ∨
        ∃ value, given args key = some value ∧ next value = .err failure := by
  unfold asked
  cases given args key with
  | none => simp
  | some value => simp

theorem FirstMissing.split {keys : List Str} {failure : Failure}
    (missing : FirstMissing args keys failure) : ∃ before key later,
      keys = before ++ key :: later ∧ (∀ earlier ∈ before, given args earlier ≠ none) ∧
        given args key = none ∧ failure = .missing key := by
  induction keys with
  | nil => exact missing.elim
  | cons key keys ih =>
    rcases missing with ⟨absent, rfl⟩ | ⟨value, present, others⟩
    · exact ⟨[], key, keys, rfl, fun _ impossible => absurd impossible List.not_mem_nil, absent,
        rfl⟩
    · obtain ⟨before, found, later, rfl, earlier, absent, same⟩ := ih others
      refine ⟨key :: before, found, later, rfl, ?_, absent, same⟩
      intro other member
      cases member with
      | head => exact present ▸ Option.some_ne_none value
      | tail _ member => exact earlier other member

theorem asks_err {failure : Failure} (failed : asks command args = .err failure) :
    flagsOf command = [] ∧ failure = .unknownCommand command ∨
      FirstMissing args (flagsOf command) failure := by
  unfold asks at failed
  unfold flagsOf
  split at failed
  next isInit =>
    right
    simpa only [if_pos isInit, FirstMissing, asked_bind_eq_err_iff, Outcome.pure_eq, reduceCtorEq]
      using failed
  next notInit =>
  split at failed
  next isAdd =>
    right
    simpa only [if_neg notInit, if_pos isAdd, FirstMissing, asked_bind_eq_err_iff,
      Outcome.pure_eq, reduceCtorEq] using failed
  next notAdd =>
  split at failed
  next isSeal =>
    right
    simpa only [if_neg notInit, if_neg notAdd, if_pos (Or.inl isSeal), FirstMissing,
      asked_bind_eq_err_iff, Outcome.pure_eq, reduceCtorEq] using failed
  next notSeal =>
  split at failed
  next isOpen =>
    right
    simpa only [if_neg notInit, if_neg notAdd, if_pos (Or.inr isOpen), FirstMissing,
      asked_bind_eq_err_iff, Outcome.pure_eq, reduceCtorEq] using failed
  next notOpen =>
  split at failed
  next isVerify =>
    right
    simpa only [if_neg notInit, if_neg notAdd, not_or.mpr ⟨notSeal, notOpen⟩, if_pos isVerify,
      if_false, FirstMissing, asked_bind_eq_err_iff, Outcome.pure_eq, reduceCtorEq] using failed
  next notVerify =>
    left
    cases failed
    simp only [if_neg notInit, if_neg notAdd, not_or.mpr ⟨notSeal, notOpen⟩, if_neg notVerify,
      if_false, and_self]

theorem asks_ne_panic (command : Str) (args : Args) : asks command args ≠ .panic := by
  have sure : ∀ {β : Type} {key : Str} {next : Str → Outcome Failure β},
      (∀ value, next value ≠ .panic) → (asked args key >>= next) ≠ .panic := by
    intro β key next returns
    unfold asked
    cases given args key with
    | none => exact Outcome.err_ne_panic _
    | some value => exact returns value
  unfold asks
  split
  · exact sure fun _ => sure fun _ => Outcome.ok_ne_panic _
  split
  · exact sure fun _ => sure fun _ => sure fun _ => Outcome.ok_ne_panic _
  split
  · exact sure fun _ => sure fun _ => sure fun _ => sure fun _ => Outcome.ok_ne_panic _
  split
  · exact sure fun _ => sure fun _ => sure fun _ => sure fun _ => Outcome.ok_ne_panic _
  split
  · exact sure fun _ => sure fun _ => Outcome.ok_ne_panic _
  · exact Outcome.err_ne_panic _

theorem lift_ite {α : Type} {condition : Prop} [Decidable condition]
    (yes no : Outcome Failure α) : (Method.lift (if condition then yes else no) : Process α) =
      if condition then Method.lift yes else Method.lift no := apply_ite _ _ _ _

theorem ite_bind {α β : Type} {condition : Prop} [Decidable condition] (yes no : Process α)
    (next : α → Process β) : ((if condition then yes else no) >>= next) =
      if condition then yes >>= next else no >>= next := apply_ite (· >>= next) _ _ _

theorem lift_pure_bind {α β : Type} (value : α) (next : α → Process β) :
    (Method.lift (pure value : Outcome Failure α) >>= next) = next value := rfl

theorem readVault_eq (path : Str) :
    readVault path = (readFile path >>= fun buf => Method.lift (parseVault buf)) := by
  unfold readVault
  congr 1
  funext buf
  simp only [parseVault, lift_ite, Method.lift_bind]
  rfl

theorem openVault_eq (file pass : Str) :
    openVault crates file pass =
      (readFile file >>= fun buf => Method.lift (heldVault crates pass buf)) := by
  unfold openVault
  rw [readVault_eq, Method.bind_assoc]
  simp only [heldVault, Method.lift_bind]
  rfl

theorem lift_savedVault (path : Str) (v : AegisVault) :
    (Method.lift (savedVault crates v) >>= writeFile path) = (do
      let bytes ← Method.lift (Outcome.expectSome (v.slotsToBytes crates))
      let salt ← Method.lift (Outcome.expectSome v.slotsHeaderSalt)
      writeVault path bytes salt : Process Unit) := by
  simp only [savedVault, Method.lift_bind, Method.bind_assoc]
  rfl

theorem serve_create (pass out : Str) : serve crates draws (.create pass out) = (do
    let v ← Method.lift ((AegisVault.unlock crates pass MASTER_SALT MEM_KIB ITERS).mapErr
      .keyDerivation)
    let (_, v) ← Method.lift (((AegisVault.sealSlots crates pass draws.table).on v).mapErr
      .sealFailed)
    Method.lift (savedVault crates v) >>= writeFile out) := by
  simp only [serve, initBytes, Method.lift_bind, Method.bind_assoc]

theorem serve_enroll (pass newp file : Str) : serve crates draws (.enroll pass newp file) = (do
    let v ← openVault crates file pass
    let (_, v) ← Method.lift (((AegisVault.addSlot crates newp draws.table).on v).mapErr
      .addSlotFailed)
    Method.lift (savedVault crates v) >>= writeFile file) := by
  simp only [serve, addBytes, Method.lift_bind, Method.bind_assoc]

theorem serve_wrap (pass file inp out : Str) : serve crates draws (.wrap pass file inp out) = (do
    let v ← openVault crates file pass
    let data ← readFile inp
    let (nonce, ct) ← Method.lift
      ((v.encrypt crates .enc data AAD .xChaCha20Poly1305 draws.fill).mapErr .encryptFailed)
    writeFile out (sealedBlob nonce ct)) := by
  simp only [serve, sealBytes, Method.lift_bind, Method.bind_assoc]
  rfl

theorem serve_unwrap (pass file inp out : Str) :
    serve crates draws (.unwrap pass file inp out) = (do
    let v ← openVault crates file pass
    let blob ← readFile inp
    if blob.length < 2 then Method.fail .blobTooShort
    else
      let nlen ← Method.lift (Outcome.index blob 1)
      if blob.length < 2 + nlen.toNat then Method.fail .blobCorrupt
      else
        let nonce ← Method.lift (sliceRange blob 2 (2 + nlen.toNat))
        let ct ← Method.lift (sliceRange blob (2 + nlen.toNat) blob.length)
        let pt ← Method.lift ((v.decrypt crates .enc nonce ct AAD .xChaCha20Poly1305).mapErr
          .decryptFailed)
        writeFile out pt) := by
  simp only [serve, openBytes, lift_ite, ite_bind, Method.lift_bind, Method.bind_assoc]
  rfl

theorem serve_check (pass file : Str) : serve crates draws (.check pass file) = (do
    let v ← openVault crates file pass
    let verified ← Method.lift (v.verifyVolume crates)
    if verified then return () else Method.fail .verifyFailed) := by
  simp only [serve, verdict, lift_ite, Method.lift_bind]
  rfl

/-- A command is its request, served. -/
theorem dispatch_eq_serve (command : Str) (args : Args) (draws : Draws) :
    dispatch crates command args draws =
      (Method.lift (asks command args) >>= serve crates draws) := by
  unfold dispatch asks
  simp only [initCommand, addCommand, sealCommand, openCommand, verifyCommand, req_eq_asked,
    lift_ite, ite_bind, Method.lift_bind, Method.bind_assoc, lift_pure_bind, serve_create,
    serve_enroll, serve_wrap, serve_unwrap, serve_check, lift_savedVault]
  rfl

end SoteriaAegis.Cli
