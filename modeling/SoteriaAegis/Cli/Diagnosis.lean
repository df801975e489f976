import SoteriaAegis.Cli.Crashes
import SoteriaAegis.Cli.Serving

/-! What a process that ends with an error says is the case. Each failure carries its cause, and
leaves the disk as it was. -/

namespace SoteriaAegis.Cli
open Rust Crypto Slots Vault Access

def Explained {α : Type} (cause : Failure → Prop) (call : Process α) (disk : Disk) : Prop :=
  ∀ failure, (call disk).1 = .err failure → cause failure

namespace Explained
variable {α β : Type} {cause : Failure → Prop} {disk : Disk} {path : Str}

theorem pure (value : α) : Explained cause (Pure.pure value : Process α) disk := by
  intro failure failed
  cases failed

theorem fail {failure : Failure} (caused : cause failure) :
    Explained cause (Method.fail failure : Process α) disk := by
  intro found failed
  cases failed
  exact caused

theorem lift {call : Outcome Failure α} (here : ∀ failure, call = .err failure → cause failure) :
    Explained cause (Method.lift call) disk := here

theorem bind {first : Process α} {next : α → Process β} (reads : first.Reads)
    (here : Explained cause first disk)
    (later : ∀ value, first disk = (.ok value, disk) → Explained cause (next value) disk) :
    Explained cause (first >>= next) disk := by
  intro failure failed
  have same := reads disk
  rw [Method.bind_apply] at failed
  cases ran : first disk with
  | mk result after =>
    rw [ran] at same failed
    subst same
    cases result with
    | ok value => exact later value ran failure failed
    | err found =>
      cases failed
      exact here _ (congrArg Prod.fst ran)
    | panic => cases failed

theorem lift_bind {call : Outcome Failure α} {next : α → Process β}
    (here : ∀ failure, call = .err failure → cause failure)
    (later : ∀ value, call = .ok value → Explained cause (next value) disk) :
    Explained cause (Method.lift call >>= next) disk := by
  apply bind (Method.reads_lift call) (lift here)
  intro value returned
  exact later value (congrArg Prod.fst returned)

theorem mapErr_bind {ε : Type} {convert : ε → Failure} {result : Outcome ε α} {next : α → Process β}
    (here : ∀ error, result = .err error → cause (convert error))
    (later : ∀ value, result = .ok value → Explained cause (next value) disk) :
    Explained cause (Method.lift (result.mapErr convert) >>= next) disk := by
  apply lift_bind
  · intro failure failed
    cases result with
    | ok value => cases failed
    | err error =>
      cases failed
      exact here error rfl
    | panic => cases failed
  · intro value returned
    exact later value ((Outcome.mapErr_eq_ok_iff _ _ _).mp returned)

theorem ite {condition : Prop} [Decidable condition] {first second : Process α}
    (yes : condition → Explained cause first disk) (no : ¬condition → Explained cause second disk) :
    Explained cause (if condition then first else second) disk := by
  split
  next holds => exact yes holds
  next fails => exact no fails

theorem readFile (caused : ∀ error, disk.files path = .error error →
      cause (.cannotRead path error)) :
    Explained cause (Cli.readFile path) disk := by
  intro failure failed
  rw [Cli.readFile, Method.self_bind] at failed
  cases found : disk.files path with
  | ok bytes =>
    rw [found] at failed
    cases failed
  | error error =>
    rw [found] at failed
    cases failed
    exact caused error found

theorem writeFile {bytes : List UInt8}
    (caused : ∀ error, disk.refusals path = some error → cause (.cannotWrite path error)) :
    Explained cause (Cli.writeFile path bytes) disk := by
  intro failure failed
  rw [Cli.writeFile, Method.self_bind] at failed
  cases refused : disk.refusals path with
  | none =>
    rw [refused] at failed
    cases failed
  | some error =>
    rw [refused] at failed
    cases failed
    exact caused error refused

end Explained

theorem on_err_iff {σ ε α : Type} {call : Method σ ε α} {receiver : σ} {error : ε} :
    call.on receiver = .err error ↔ (call receiver).1 = .err error := by
  unfold Method.on
  cases call receiver with
  | mk result after =>
    cases result with
    | ok value => simp
    | err found => simp
    | panic => simp

theorem sure_bind {α β : Type} {cause : Failure → Prop} {disk : Disk} {call : Outcome Failure α}
    {next : α → Process β} (sure : ∀ failure, call ≠ .err failure)
    (later : ∀ value, call = .ok value → Explained cause (next value) disk) :
    Explained cause (Method.lift call >>= next) disk :=
  Explained.lift_bind (fun failure failed => absurd failed (sure failure)) later

/-- What is the matter when the process of a request reports a failure. -/
inductive Trouble (crates : Crates) (draws : Draws) (disk : Disk) (wish : Request Str Str) :
    Failure → Prop where
  | unreadable {path error : Str} (named : vaultOf wish = some path ∨ inputOf wish = some path)
      (refused : disk.files path = .error error) :
      Trouble crates draws disk wish (.cannotRead path error)
  | unwritable {path error : Str} (named : outputOf wish = some path)
      (refused : disk.refusals path = some error) :
      Trouble crates draws disk wish (.cannotWrite path error)
  | short {file : Str} {bytes : List UInt8} (named : vaultOf wish = some file)
      (read : disk.files file = .ok bytes)
      (few : bytes.length < 38) : Trouble crates draws disk wish .vaultTooShort
  | stray {file : Str} {bytes : List UInt8} (named : vaultOf wish = some file)
      (read : disk.files file = .ok bytes)
      (enough : 38 ≤ bytes.length) (other : bytes.take 5 ≠ MAGIC) :
      Trouble crates draws disk wish .notAVault
  | later {file : Str} {bytes : List UInt8} (named : vaultOf wish = some file)
      (read : disk.files file = .ok bytes)
      (magic : bytes.take 5 = MAGIC) (other : ∃ version ∈ bytes[5]?, version ≠ VERSION) :
      Trouble crates draws disk wish .unsupportedVersion
  | locked {file : Str} {slotBytes : List UInt8} {salt : U8Array 32} {error : AegisError}
      (named : vaultOf wish = some file) (read : disk.files file = .ok (vaultFile slotBytes salt))
      (refused : Refused crates slotBytes salt (passOf wish) error) :
      Trouble crates draws disk wish (.cannotOpenVault error)
  | underived {pass out : Str} (asked : wish = .create pass out)
      (refused : argon2idRoot crates pass MASTER_SALT MEM_KIB ITERS = .err .argon2) :
      Trouble crates draws disk wish (.keyDerivation .argon2)
  | unsealed {pass out : Str} {raw : U8Array MASTER_LEN} {error : AegisError}
      (asked : wish = .create pass out)
      (derived : argon2idRoot crates pass MASTER_SALT MEM_KIB ITERS = .ok (AegisKey.new32 raw))
      (unmade : Unmade crates raw pass draws.table.slot error) :
      Trouble crates draws disk wish (.sealFailed error)
  | full {pass newp file : Str} {v : AegisVault} {table : KeySlotTable}
      (asked : wish = .enroll pass newp file)
      (opened : openVault crates file pass disk = (.ok v, disk)) (held : v.slots = some table)
      (many : MAX_SLOTS ≤ table.slots.length) :
      Trouble crates draws disk wish (.addSlotFailed (.slotTableFull MAX_SLOTS))
  | unadded {pass newp file : Str} {v : AegisVault} {raw : U8Array MASTER_LEN} {error : AegisError}
      (asked : wish = .enroll pass newp file)
      (opened : openVault crates file pass disk = (.ok v, disk))
      (master : v.master = AegisKey.new32 raw)
      (unmade : Unmade crates raw newp draws.table.slot error) :
      Trouble crates draws disk wish (.addSlotFailed error)
  | unencrypted {pass file inp out : Str} {v : AegisVault} {data : List UInt8} {key : U8Array 32}
      (asked : wish = .wrap pass file inp out)
      (opened : openVault crates file pass disk = (.ok v, disk))
      (read : disk.files inp = .ok data) (keyed : v.domain .enc = AegisKey.new32 key)
      (refused : crates.xChaChaEncrypt key (draws.fill 24) data AAD = none) :
      Trouble crates draws disk wish (.encryptFailed .aeadSeal)
  | blobShort {inp : Str} {blob : List UInt8} (named : inputOf wish = some inp)
      (read : disk.files inp = .ok blob)
      (few : blob.length < 2) : Trouble crates draws disk wish .blobTooShort
  | blobCut {inp : Str} {blob : List UInt8} {nlen : UInt8} (named : inputOf wish = some inp)
      (read : disk.files inp = .ok blob) (announced : blob[1]? = some nlen)
      (few : blob.length < 2 + nlen.toNat) :
      Trouble crates draws disk wish .blobCorrupt
  | undecrypted {pass file inp out : Str} {v : AegisVault} {first : UInt8} {nonce ct : List UInt8}
      (asked : wish = .unwrap pass file inp out)
      (opened : openVault crates file pass disk = (.ok v, disk))
      (read : disk.files inp = .ok ([first, UInt8.ofNat nonce.length] ++ nonce ++ ct))
      (refused : ∀ fits : nonce.length = 24, ∃ key, v.domain .enc = AegisKey.new32 key ∧
        crates.xChaChaDecrypt key ⟨nonce, fits⟩ ct AAD = none) :
      Trouble crates draws disk wish (.decryptFailed .aeadOpen)

variable {crates : Crates} {draws : Draws} {disk : Disk} {wish : Request Str Str} {file pass : Str}

theorem readVault_explained (named : vaultOf wish = some file) :
    Explained (Trouble crates draws disk wish) (readVault file) disk := by
  refine Explained.bind (readFile_reads file) (Explained.readFile fun _ refused =>
    .unreadable (Or.inl named) refused) ?_
  intro buf found
  have read := ((readFile_eq_ok_iff file disk disk buf).mp found).1
  refine Explained.ite (fun few => Explained.fail (.short named read few)) ?_
  intro long
  have bound : 38 ≤ buf.length := Nat.le_of_not_lt long
  rw [sliceRange_front (by omega), Outcome.index_of_lt buf 5 (by omega),
    sliceRange_ok buf 6 38 (by decide) bound, sliceRange_back bound]
  refine sure_bind (fun _ failed => by cases failed) ?_
  intro magic same
  cases same
  refine Explained.ite (fun other => Explained.fail (.stray named read bound other)) ?_
  intro magic
  refine sure_bind (fun _ failed => by cases failed) ?_
  intro version same
  cases same
  refine Explained.ite (fun other => Explained.fail (.later named read (not_not.mp magic) ?_)) ?_
  · exact ⟨buf[5], List.getElem?_eq_getElem (by omega), other⟩
  intro version
  refine sure_bind (fun _ failed => by cases failed) ?_
  intro saltBytes same
  cases same
  have length : ((buf.drop 6).take (38 - 6)).length = 32 := by
    rw [List.length_take, List.length_drop]
    omega
  rw [U8Array.copyFromSlice_of_length length]
  refine sure_bind (fun _ failed => by cases failed) ?_
  intro salt _
  refine sure_bind (fun _ failed => by cases failed) ?_
  intro slotBytes _
  exact Explained.pure _

theorem openVault_explained (expands : crates.ExpandsShort) (named : vaultOf wish = some file)
    (asks : passOf wish = pass) :
    Explained (Trouble crates draws disk wish) (openVault crates file pass) disk := by
  refine Explained.bind (readVault_reads file) (readVault_explained named) ?_
  rintro ⟨slotBytes, salt⟩ found
  have read := ((readVault_eq_ok_iff _ _ _ _ _).mp found).1
  refine sure_bind ?_ ?_
  · intro failure failed
    cases unlocked : AegisVault.unlock crates (ascii "ignored") MASTER_SALT MEM_KIB ITERS <;>
      rw [unlocked] at failed <;>
      cases failed
  intro v _
  refine Explained.mapErr_bind ?_ ?_
  · intro error failed
    refine .locked named read ?_
    rw [asks]
    exact (opening_refused_iff expands slotBytes salt pass v error).mp (on_err_iff.mp failed)
  · rintro ⟨_, v'⟩ _
    exact Explained.pure _

/-- What is the matter with a command: there is none of this name, its first flag that is not given,
or the trouble with what it asks for. -/
inductive Reason (crates : Crates) (draws : Draws) (disk : Disk) (command : Str) (args : Args) :
    Failure → Prop where
  | unknown (none : flagsOf command = []) :
      Reason crates draws disk command args (.unknownCommand command)
  | missing {before later : List Str} {key : Str}
      (needed : flagsOf command = before ++ key :: later)
      (present : ∀ earlier ∈ before, given args earlier ≠ none) (absent : given args key = none) :
      Reason crates draws disk command args (.missing key)
  | trouble {wish : Request Str Str} {failure : Failure} (asked : request command args = some wish)
      (trouble : Trouble crates draws disk wish failure) :
      Reason crates draws disk command args failure

section
variable {args : Args}

theorem Explained.imp {α : Type} {cause cause' : Failure → Prop} {call : Process α}
    (explained : Explained cause call disk)
    (implies : ∀ failure, cause failure → cause' failure) : Explained cause' call disk :=
  fun failure failed => implies failure (explained failure failed)

theorem writeTable_explained {v : AegisVault} {table : KeySlotTable}
    (held : v.slots = some table) {path : Str}
    (named : outputOf wish = some path) : Explained (Trouble crates draws disk wish)
      (Method.lift (savedVault crates v) >>= Cli.writeFile path) disk := by
  unfold savedVault AegisVault.slotsToBytes AegisVault.slotsHeaderSalt
  rw [held]
  exact Explained.writeFile fun error refused => .unwritable named refused

theorem create_explained (expands : crates.ExpandsShort) (pass out : Str) :
    Explained (Trouble crates draws disk (.create pass out))
      (serve crates draws (.create pass out)) disk := by
  rw [serve_create]
  refine Explained.mapErr_bind ?_ ?_
  · intro error failed
    have refused := (AegisVault.unlock_err_iff expands).mp failed
    cases argon2idRoot_err refused
    exact .underived rfl refused
  intro v unlocked
  obtain ⟨raw, derived, made⟩ := (AegisVault.unlock_eq_ok_iff crates _ _ _ _ _).mp unlocked
  have coherent := Coherent.of_fromMasterKey made
  refine Explained.mapErr_bind ?_ ?_
  · intro error failed
    exact .unsealed rfl derived (coherent.sealSlots_err_iff.mp (on_err_iff.mp failed))
  rintro ⟨done, v'⟩ sealing
  obtain ⟨_, table, _, _, rfl⟩ := AegisVault.sealSlots_ok ((Method.on_eq_ok_iff _ _ _ _).mp sealing)
  exact writeTable_explained rfl rfl

theorem enroll_explained (expands : crates.ExpandsShort) (pass newp file : Str) :
    Explained (Trouble crates draws disk (.enroll pass newp file))
      (serve crates draws (.enroll pass newp file)) disk := by
  rw [serve_enroll]
  refine Explained.bind (openVault_reads crates file pass) (openVault_explained expands rfl rfl) ?_
  intro v opened
  obtain ⟨raw, coherent⟩ := openVault_coherent opened
  refine Explained.mapErr_bind ?_ ?_
  · intro error failed
    rcases coherent.addSlot_err_iff.mp (on_err_iff.mp failed) with ⟨⟨table, held, many⟩,
      rfl⟩ | ⟨_, unmade⟩
    · exact .full rfl opened held many
    · exact .unadded rfl opened coherent.master unmade
  rintro ⟨idx, v'⟩ adding
  obtain ⟨_, _, ⟨_, _, _, _, _, _, rfl⟩ | ⟨_, _, _, _, rfl⟩⟩ :=
    AegisVault.addSlot_ok ((Method.on_eq_ok_iff _ _ _ _).mp adding)
  · exact writeTable_explained rfl rfl
  · exact writeTable_explained rfl rfl

theorem wrap_explained (expands : crates.ExpandsShort) (pass file inp out : Str) :
    Explained (Trouble crates draws disk (.wrap pass file inp out))
      (serve crates draws (.wrap pass file inp out)) disk := by
  rw [serve_wrap]
  refine Explained.bind (openVault_reads crates file pass) (openVault_explained expands rfl rfl) ?_
  intro v opened
  obtain ⟨raw, coherent⟩ := openVault_coherent opened
  refine Explained.bind (readFile_reads inp) (Explained.readFile fun _ refused =>
    .unreadable (Or.inr rfl) refused) ?_
  intro data found
  have read := ((readFile_eq_ok_iff inp disk disk data).mp found).1
  refine Explained.mapErr_bind ?_ ?_
  · intro error failed
    obtain ⟨rfl, key, keyed, refused⟩ := coherent.encrypt_err_iff.mp failed
    exact .unencrypted rfl opened read keyed refused
  rintro ⟨nonce, ct⟩ _
  exact Explained.writeFile fun error refused => .unwritable rfl refused

theorem unwrap_explained (expands : crates.ExpandsShort) (pass file inp out : Str) :
    Explained (Trouble crates draws disk (.unwrap pass file inp out))
      (serve crates draws (.unwrap pass file inp out)) disk := by
  rw [serve_unwrap]
  refine Explained.bind (openVault_reads crates file pass) (openVault_explained expands rfl rfl) ?_
  intro v opened
  obtain ⟨raw, coherent⟩ := openVault_coherent opened
  refine Explained.bind (readFile_reads inp) (Explained.readFile fun _ refused =>
    .unreadable (Or.inr rfl) refused) ?_
  intro blob found
  have read := ((readFile_eq_ok_iff inp disk disk blob).mp found).1
  refine Explained.ite (fun few => Explained.fail (.blobShort rfl read few)) ?_
  intro long
  obtain ⟨first, nlen, rest, rfl⟩ := two_of_length (Nat.le_of_not_lt long)
  refine sure_bind (fun _ failed => by cases failed) ?_
  intro announced same
  cases same
  refine Explained.ite (fun few => Explained.fail (.blobCut rfl read rfl few)) ?_
  intro fits
  have room : nlen.toNat ≤ rest.length := by
    simp only [List.length_cons] at fits
    omega
  have shape : first :: nlen :: rest =
      [first, UInt8.ofNat (rest.take nlen.toNat).length] ++ rest.take nlen.toNat ++
        rest.drop nlen.toNat := by
    rw [List.length_take_of_le room, UInt8.ofNat_toNat, List.append_assoc, List.take_append_drop]
    rfl
  rw [sliceRange_ok _ _ _ (Nat.le_add_right _ _) (Nat.le_of_not_lt fits),
    sliceRange_back (Nat.le_of_not_lt fits), Nat.add_sub_cancel_left, ← List.drop_drop]
  refine sure_bind (fun _ failed => by cases failed) ?_
  intro nonce same
  cases same
  refine sure_bind (fun _ failed => by cases failed) ?_
  intro ct same
  cases same
  refine Explained.mapErr_bind ?_ ?_
  · intro error failed
    obtain ⟨rfl, refused⟩ := coherent.decrypt_err_iff.mp failed
    exact .undecrypted rfl opened (shape ▸ read) refused
  intro pt _
  exact Explained.writeFile fun error refused => .unwritable rfl refused

/-- A vault that was opened verifies, so `verify` never reports a key-check that did not. -/
theorem check_explained (expands : crates.ExpandsShort) (pass file : Str) :
    Explained (Trouble crates draws disk (.check pass file))
      (serve crates draws (.check pass file)) disk := by
  rw [serve_check]
  refine Explained.bind (openVault_reads crates file pass) (openVault_explained expands rfl rfl) ?_
  intro v opened
  obtain ⟨_, slotBytes, salt, ignored, _, _, opening⟩ :=
    (openVault_eq_ok_iff crates _ _ _).mp opened
  obtain ⟨table, raw, hierarchy, recovered, derived, rfl⟩ :=
    AegisVault.openFromSlots_eq_ok_iff.mp opening
  rw [verifyVolume_checked rfl rfl recovered.checked]
  refine sure_bind (fun _ failed => by cases failed) ?_
  intro verified same
  cases same
  exact Explained.pure _

theorem serve_explained (expands : crates.ExpandsShort) (wish : Request Str Str) :
    Explained (Trouble crates draws disk wish) (serve crates draws wish) disk := by
  cases wish with
  | create pass out => exact create_explained expands pass out
  | enroll pass newp file => exact enroll_explained expands pass newp file
  | wrap pass file inp out => exact wrap_explained expands pass file inp out
  | unwrap pass file inp out => exact unwrap_explained expands pass file inp out
  | check pass file => exact check_explained expands pass file

theorem dispatch_explained (expands : crates.ExpandsShort) (command : Str) :
    Explained (Reason crates draws disk command args)
      (dispatch crates command args draws) disk := by
  rw [dispatch_eq_serve]
  refine Explained.lift_bind ?_ ?_
  · intro failure failed
    rcases asks_err failed with ⟨none, rfl⟩ | missing
    · exact .unknown none
    · obtain ⟨before, key, later, needed, present, absent, rfl⟩ := missing.split
      exact .missing needed present absent
  · intro wish asked
    exact (serve_explained expands wish).imp fun failure trouble =>
      .trouble (asks_eq_ok_iff.mp asked) trouble

end

/-- A process that reports a failure has written nothing, and what it says is the case: it was used
wrongly, or there is the reason named with the command line or with what that asks for. -/
theorem main_reports (expands : crates.ExpandsShort) (draws : Draws) (argv : List Str)
    (disk after : Disk)
    (failure : Failure) (reported : main crates draws argv disk = (.err failure, after)) :
    after = disk ∧ (failure = .usage ∧ argv.length < 2 ∨
      ∃ command args, parseArgs argv = .ok (command, args) ∧
      Reason crates draws disk command args failure) := by
  constructor
  · rcases main_atomic crates draws argv disk with ⟨value, returned⟩ | same
    · rw [reported] at returned
      cases returned
    · rw [reported] at same
      exact same
  · have failed : (main crates draws argv disk).1 = .err failure := congrArg Prod.fst reported
    unfold main at failed
    rcases argv with _ | ⟨program, _ | ⟨command, flags⟩⟩
    · cases failed
      exact Or.inl ⟨rfl, Nat.zero_lt_two⟩
    · cases failed
      exact Or.inl ⟨rfl, Nat.one_lt_two⟩
    · exact Or.inr ⟨command, _, rfl, dispatch_explained expands command failure failed⟩

end SoteriaAegis.Cli
