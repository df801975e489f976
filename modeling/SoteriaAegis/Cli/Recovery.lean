import SoteriaAegis.Cli.Fidelity

/-! The master of a vault comes from its founder's passphrase and a fixed salt. So the founder can
make the vault again, wherever the vault file has gone, and open what was sealed with it. -/

namespace SoteriaAegis.Cli
open Rust Crypto Slots Vault Access
variable {crates : Crates} {used : List Str} {disk after : Disk} {files : Files} {args : Args}
  {draws : Draws}

/-- A fresh vault opens for its founder, no matter what other slots would do. -/
theorem openVault_founder (able : Able crates used) {pass out : Str} (member : pass ∈ used)
    (passGiven : given args (ascii "p") = some pass) (outGiven : given args (ascii "o") = some out)
    (done : initCommand crates args draws disk = (.ok (), after)) :
    ∃ hierarchy table, KeyHierarchy.fromMaster crates (rootOf crates pass).val = .ok hierarchy ∧
      openVault crates out pass after =
      (.ok ⟨AegisKey.new32 (rootOf crates pass), hierarchy, some table⟩, after) := by
  obtain ⟨pass', given', out', givenOut', v, unlocked, _, v', sealing, table, held, _, rfl⟩ :=
    initCommand_eq_ok_iff.mp done
  rw [passGiven, Option.some.injEq] at given'
  rw [outGiven, Option.some.injEq] at givenOut'
  subst given' givenOut'
  obtain ⟨hierarchy, again⟩ := unlock_root able member
  rw [unlocked, Outcome.ok.injEq] at again
  subst again
  obtain ⟨raw, made, same, created, rfl⟩ := AegisVault.sealSlots_ok sealing
  cases AegisKey.new32_injective same
  cases held
  obtain ⟨slot, slotMade, rfl⟩ := (KeySlotTable.newInitial_eq_ok_iff crates _ _ _ _).mp created
  have wraps := ((KeySlot.create_eq_ok_iff crates _ _ _ _ _ _).mp slotMade).1
  have unsealed : (KeySlotTable.mk draws.table.headerSalt [slot]
    (volumeVerifier crates (rootOf crates pass))).unsealWith
      crates pass = .ok (0, AegisKey.new32 (rootOf crates pass)) := by
    apply (KeySlotTable.unsealWith_eq_ok_iff crates _ _ _ _).mpr
    exact ⟨slot, rfl, KeySlot.create_enabled crates slotMade,
      KeySlot.unsealSlot_of_wraps crates able.opens wraps,
      fun earlier less => absurd less (Nat.not_lt_zero earlier)⟩
  obtain ⟨ignored, ignoredUnlocked⟩ := able.ignored
  obtain ⟨hierarchy, derived⟩ :=
    KeyHierarchy.fromMaster_total crates able.expands (rootOf crates pass).val
  have small : [slot].length < 256 := by
    rw [List.length_singleton]
    decide
  exact ⟨hierarchy, _, derived, openVault_of_stored (storedTable_write small) ignoredUnlocked
    unsealed rfl derived⟩

def FoundedIn (crates : Crates) (used : List Str) (launches : List Launch)
    (master : U8Array MASTER_LEN) : Prop :=
  ∃ founder ∈ used, rootOf crates founder = master ∧
    ∃ launch ∈ launches, ∃ out, requestOf launch.argv = some (.create founder out)

theorem founded_visited {launches : List Launch}
    (named : ∀ launch ∈ launches, ∀ wish, requestOf launch.argv = some wish →
      passphrasesOf wish ⊆ used)
    (plain : ∀ path content, files.files path = some content → ∃ data, content = .plain data)
    {state : Disk × Files} (visits : Visits (sessionStep crates) (disk, files) launches state) :
    state.2.Founded (FoundedIn crates used launches) := by
  apply visits_induction (fun state => state.2.Founded (FoundedIn crates used launches)) _ _ visits
  · intro path content found
    obtain ⟨data, rfl⟩ := plain path content found
    trivial
  · intro before launch next taken founded stepped
    cases stepped
    unfold Cabinet.step
    cases decided : (requestOf launch.argv).bind (before.2.perform (rootOf crates) MAX_SLOTS) with
    | none => exact founded
    | some done =>
      obtain ⟨wish, asked, performed⟩ := Option.bind_eq_some_iff.mp decided
      apply founded.perform _ performed
      intro founder out same
      have member := named launch taken.mem wish asked
      rw [same] at asked member
      exact ⟨founder, member (List.mem_singleton_self founder), rfl, launch, taken.mem, out, asked⟩

/-- Whatever has become of the vault files, a founder of the session can make a vault in which
a sealed file opens, with nothing but the passphrase. -/
theorem founder_recovers (able : Able crates used) (mirrors : Mirrors crates used disk files)
    {launches : List Launch}
    (named : ∀ launch ∈ launches, ∀ wish, requestOf launch.argv = some wish →
      passphrasesOf wish ⊆ used)
    (authentic : ∀ state, Visits (sessionStep crates) (disk, files) launches state →
      Authentic crates used state.1 state.2)
    (plain : ∀ path content, files.files path = some content → ∃ data, content = .plain data)
    {state : Disk × Files}
    (visits : Visits (sessionStep crates) (disk, files) launches state) {path : Str}
    {master : U8Array MASTER_LEN}
    {inner : FileContent} (found : state.2.files path = some (.sealed master inner)) :
    ∃ founder, (∃ launch ∈ launches, ∃ out, requestOf launch.argv = some (.create founder out)) ∧
      ∀ initial opening fresh out draws, given initial (ascii "p") = some founder →
      given initial (ascii "o") = some fresh → FileFlags opening founder fresh path out →
      fresh ≠ path →
      state.1.refusals fresh = none → state.1.refusals out = none →
      ∃ middle bytes, initCommand crates initial draws state.1 = (.ok (), middle) ∧
        openCommand crates opening middle = (.ok (), middle.write out bytes) ∧
        Holds crates used inner bytes := by
  obtain ⟨⟨founder, member, rfl, made⟩, _⟩ := founded_visited named plain visits path _ found
  obtain ⟨blob, read, raw, ⟨hierarchy, derived, sealed⟩, holds⟩ :=
    (session_mirrors able mirrors named authentic visits).present path _ found
  refine ⟨founder, made, fun initial opening fresh out draws passGiven freshGiven flags apart freshWritable outWritable => ?_⟩
  obtain ⟨again, unlocked⟩ := unlock_root able member
  obtain ⟨table, sealing, _⟩ := sealSlots_root able member (rootOf crates founder) again draws.table
  have created : initCommand crates initial draws state.1 =
      (.ok (), state.1.write fresh (vaultFile (table.toBytes crates) table.headerSalt)) :=
    initCommand_eq_ok_iff.mpr ⟨founder, passGiven, fresh, freshGiven, _, unlocked, (), _,
      sealing, table, rfl,
      freshWritable, rfl⟩
  obtain ⟨same, stored, derivedAgain, opened⟩ :=
    openVault_founder able member passGiven freshGiven created
  rw [derived, Outcome.ok.injEq] at derivedAgain
  subst derivedAgain
  obtain ⟨nonce, ct, length, shape, decrypted⟩ := sealed_decrypts able.opens sealed
  have readStill : (state.1.write fresh (vaultFile (table.toBytes crates) table.headerSalt)).files
    path = .ok blob :=
    (Disk.write_other _ (Ne.symm apart) _).trans read
  refine ⟨_, raw, created, (openCommand_eq_ok_iff crates flags opened readStill).mpr
    ⟨0, nonce, ct, raw, ?_, ?_, decrypted, outWritable, rfl⟩, holds⟩
  · rw [length]
    decide
  · rw [length]
    exact shape

def initSpare : Invocation (ascii "init") :=
  .ofFlags _ [ascii "-p", ascii "alice", ascii "-o", ascii "spare"]

def openSpare : Invocation (ascii "open") :=
  .ofFlags _ [ascii "-p", ascii "alice", ascii "-f", ascii "spare", ascii "-i", ascii "blob",
    ascii "-o", ascii "copy"]

def holdsSealed : Option FileContent → Bool
  | some (.sealed _ _) => true
  | _ => false

def foundsFor (founder : Str) : Request Str Str → Bool
  | .create asking _ => asking == founder
  | _ => true

theorem founder_recovers_bob : ∃ final middle bytes,
    run (sessionStep checksumCrates) (letterDisk, letterFiles) bobJoins = some final ∧
    initCommand checksumCrates initSpare.args initSpare.draws final.1 = (.ok (), middle) ∧
    openCommand checksumCrates openSpare.args middle =
    (.ok (), middle.write (ascii "copy") bytes) := by
  have reached : ((run (sessionStep checksumCrates) (letterDisk, letterFiles) bobJoins).any
    fun final =>
      decide (final.1.refusals (ascii "spare") = none ∧ final.1.refusals (ascii "copy") = none) &&
        holdsSealed (final.2.files (ascii "blob"))) = true := by
    decide +kernel
  obtain ⟨final, ran, passed⟩ := (Option.any_eq_true _ _).mp reached
  obtain ⟨writable, isSealed⟩ := (Bool.and_eq_true _ _).mp passed
  obtain ⟨spareWritable, copyWritable⟩ := of_decide_eq_true writable
  have plain : ∀ path content, letterFiles.files path = some content → ∃ data,
    content = .plain data := by
    intro path content found
    obtain ⟨_, same⟩ := Option.ite_none_right_eq_some.mp found
    cases same
    exact ⟨_, rfl⟩
  have founders : ∀ launch ∈ bobJoins,
    ((requestOf launch.argv).all (foundsFor (ascii "alice"))) = true := by
    decide
  unfold holdsSealed at isSealed
  split at isSealed
  next master inner found =>
    obtain ⟨founder, ⟨launch, member, out, asked⟩, recovers⟩ :=
      founder_recovers (checksumCrates_able _)
      (letterDisk_mirrors _) bobJoins_named (fun state visits => bobJoins_authentic visits) plain
        (Visits.last ran) found
    have here := founders launch member
    rw [asked] at here
    have alice : founder = ascii "alice" := eq_of_beq here
    subst alice
    have flags : FileFlags openSpare.args (ascii "alice") (ascii "spare") (ascii "blob")
      (ascii "copy") := by
      constructor <;> decide
    obtain ⟨middle, bytes, made, opened, _⟩ :=
      recovers initSpare.args openSpare.args (ascii "spare") (ascii "copy")
      initSpare.draws rfl rfl flags (by decide) spareWritable copyWritable
    exact ⟨final, middle, bytes, ran, made, opened⟩
  next => cases isSealed

end SoteriaAegis.Cli
