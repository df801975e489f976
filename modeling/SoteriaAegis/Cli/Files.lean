import SoteriaAegis.Cli.Commands

/-! What a command that succeeded has read and written. -/

namespace SoteriaAegis.Cli
open Rust Crypto Slots Vault

theorem magic_length : MAGIC.length = 5 := by decide

theorem two_of_length {bytes : List UInt8} (long : 2 ≤ bytes.length) :
    ∃ first second rest, bytes = first :: second :: rest := by
  match bytes, long with
  | first :: second :: rest, _ => exact ⟨first, second, rest, rfl⟩

theorem vaultFile_length (slotBytes : List UInt8) (salt : U8Array 32) :
    (vaultFile slotBytes salt).length = 38 + slotBytes.length := by
  simp only [vaultFile, List.length_append, magic_length, List.length_singleton, U8Array.length_val]

theorem vaultFile_iff (buf slotBytes : List UInt8) (salt : U8Array 32) :
    buf = vaultFile slotBytes salt ↔ 38 ≤ buf.length ∧ buf.take 5 = MAGIC ∧ buf[5]? = some VERSION ∧
      (buf.drop 6).take 32 = salt.val ∧ buf.drop 38 = slotBytes := by
  constructor
  · intro same
    have head : (MAGIC ++ [VERSION]).length = 6 := by decide
    have front : (MAGIC ++ [VERSION] ++ salt.val).length = 38 := by
      rw [List.length_append, head, U8Array.length_val]
    rw [same]
    refine ⟨?_, ?_, ?_, ?_, ?_⟩
    · rw [vaultFile_length]
      omega
    · rw [vaultFile, List.append_assoc, List.append_assoc]
      exact List.take_left' magic_length
    · rw [vaultFile, List.append_assoc, List.append_assoc, List.getElem?_append_right (by decide)]
      rfl
    · rw [vaultFile, List.append_assoc, List.drop_left' head]
      exact List.take_left' salt.property
    · rw [vaultFile]
      exact List.drop_left' front
  · intro ⟨long, magic, version, saltBytes, rest⟩
    have inside : 5 < buf.length := by omega
    have byte : buf[5] = VERSION := by
      rw [List.getElem?_eq_getElem inside] at version
      exact Option.some.inj version
    calc
      buf = buf.take 5 ++ buf.drop 5 := (List.take_append_drop 5 buf).symm
      _ = MAGIC ++ (buf[5] :: buf.drop 6) := by rw [magic, List.drop_eq_getElem_cons inside]
      _ = MAGIC ++ (VERSION :: ((buf.drop 6).take 32 ++ (buf.drop 6).drop 32)) := by
        rw [byte, List.take_append_drop]
      _ = MAGIC ++ (VERSION :: (salt.val ++ slotBytes)) := by rw [saltBytes, List.drop_drop, rest]
      _ = vaultFile slotBytes salt := by simp only [vaultFile, List.append_assoc, List.cons_append, List.nil_append]

theorem readVault_eq_ok_iff (path : Str) (disk after : Disk) (slotBytes : List UInt8) (salt : U8Array 32) :
    readVault path disk = (.ok (slotBytes, salt), after) ↔
      disk.files path = .ok (vaultFile slotBytes salt) ∧ after = disk := by
  rw [readVault, (readFile_reads path).bind_eq_ok_iff]
  constructor
  · intro ⟨buf, read, rest⟩
    have content := ((readFile_eq_ok_iff _ _ _ _).mp read).1
    by_cases short : buf.length < 5 + 1 + 32
    · rw [if_pos short] at rest
      cases rest
    rw [if_neg short] at rest
    have long : 38 ≤ buf.length := Nat.le_of_not_lt short
    obtain ⟨magic, sliced, rest⟩ := (Method.lift_bind_eq_ok_iff _ _ _ _ _).mp rest
    rw [sliceRange_front (by omega)] at sliced
    cases sliced
    by_cases known : buf.take 5 = MAGIC
    · simp only [known, ne_eq, not_true, if_false] at rest
      obtain ⟨version, indexed, rest⟩ := (Method.lift_bind_eq_ok_iff _ _ _ _ _).mp rest
      rw [Outcome.index_of_lt buf 5 (by omega)] at indexed
      cases indexed
      by_cases supported : buf[5] = VERSION
      · simp only [supported, not_true, if_false] at rest
        obtain ⟨saltBytes, sliced, rest⟩ := (Method.lift_bind_eq_ok_iff _ _ _ _ _).mp rest
        rw [sliceRange_ok buf 6 38 (by decide) (by omega)] at sliced
        cases sliced
        obtain ⟨found, copied, rest⟩ := (Method.lift_bind_eq_ok_iff _ _ _ _ _).mp rest
        have foundBytes := (U8Array.copyFromSlice_eq_ok_iff _ _).mp copied
        obtain ⟨tail, sliced, rest⟩ := (Method.lift_bind_eq_ok_iff _ _ _ _ _).mp rest
        rw [sliceRange_back long] at sliced
        cases sliced
        cases rest
        rw [content]
        refine ⟨congrArg Except.ok ?_, rfl⟩
        apply (vaultFile_iff buf _ salt).mpr
        refine ⟨long, known, ?_, foundBytes.symm, rfl⟩
        rw [List.getElem?_eq_getElem (by omega), supported]
      · simp only [supported, not_false_eq_true, if_true] at rest
        cases rest
    · simp only [known, ne_eq, not_false_eq_true, if_true] at rest
      cases rest
  · intro ⟨content, same⟩
    subst same
    refine ⟨vaultFile slotBytes salt, (readFile_eq_ok_iff _ _ _ _).mpr ⟨content, rfl⟩, ?_⟩
    obtain ⟨long, magic, version, saltBytes, tail⟩ := (vaultFile_iff _ slotBytes salt).mp rfl
    generalize vaultFile slotBytes salt = buf at long magic version saltBytes tail ⊢
    have short : ¬buf.length < 5 + 1 + 32 := Nat.not_lt.mpr long
    have indexed : (Outcome.index buf 5 : Outcome Failure UInt8) = .ok VERSION :=
      Outcome.index_ok buf 5 VERSION version
    have salted : (buf.drop 6).take (38 - 6) = salt.val := saltBytes
    have five : 5 ≤ buf.length := by omega
    simp only [short, if_false, Method.bind_apply, Method.lift_apply,
      sliceRange_front five, magic, ne_eq, not_true, indexed,
      sliceRange_ok buf 6 38 (by decide) long, salted, U8Array.copyFromSlice_val,
      sliceRange_back long, tail, Method.pure_apply]

variable (crates : Crates) {disk after : Disk}

theorem req_bind_eq_ok_iff {α : Type} (args : Args) (key : Str) (next : Str → Process α) (result : α) :
    (req args key >>= next) disk = (.ok result, after) ↔
      ∃ value, (args key = some value ∧ value ≠ []) ∧ next value disk = (.ok result, after) := by
  rw [(req_reads args key).bind_eq_ok_iff]
  constructor
  · intro ⟨value, given, rest⟩
    obtain ⟨found, nonempty, _⟩ := (req_eq_ok_iff _ _ _ _ _).mp given
    exact ⟨value, ⟨found, nonempty⟩, rest⟩
  · intro ⟨value, ⟨found, nonempty⟩, rest⟩
    exact ⟨value, (req_eq_ok_iff _ _ _ _ _).mpr ⟨found, nonempty, rfl⟩, rest⟩

theorem req_bind_of_given {α : Type} {args : Args} {key value : Str} (given : args key = some value ∧ value ≠ [])
    (next : Str → Process α) : (req args key >>= next) disk = next value disk :=
  Method.bind_of_ok _ _ ((req_eq_ok_iff _ _ _ _ _).mpr ⟨given.1, given.2, rfl⟩)

theorem readFile_bind_eq_ok_iff {α : Type} (path : Str) (next : List UInt8 → Process α) (result : α) :
    (readFile path >>= next) disk = (.ok result, after) ↔
      ∃ bytes, disk.files path = .ok bytes ∧ next bytes disk = (.ok result, after) := by
  simp only [(readFile_reads path).bind_eq_ok_iff, readFile_eq_ok_iff, and_true]

theorem openVault_bind_eq_ok_iff {α : Type} (path pass : Str) (next : AegisVault → Process α) (result : α) :
    (openVault crates path pass >>= next) disk = (.ok result, after) ↔
      ∃ v, openVault crates path pass disk = (.ok v, disk) ∧ next v disk = (.ok result, after) :=
  (openVault_reads crates path pass).bind_eq_ok_iff disk after result

theorem openVault_eq_ok_iff (path pass : Str) (v : AegisVault) :
    openVault crates path pass disk = (.ok v, after) ↔ after = disk ∧ ∃ slotBytes salt ignored,
      disk.files path = .ok (vaultFile slotBytes salt) ∧
      AegisVault.unlock crates (ascii "ignored") MASTER_SALT MEM_KIB ITERS = .ok ignored ∧
      AegisVault.openFromSlots crates slotBytes salt pass ignored = (.ok (), v) := by
  rw [openVault, (readVault_reads path).bind_eq_ok_iff]
  constructor
  · intro ⟨⟨slotBytes, salt⟩, read, rest⟩
    obtain ⟨content, _⟩ := (readVault_eq_ok_iff _ _ _ _ _).mp read
    obtain ⟨ignored, unlocked, rest⟩ := (Method.lift_bind_eq_ok_iff _ _ _ _ _).mp rest
    obtain ⟨⟨value, opened⟩, opening, rest⟩ := (Method.lift_bind_eq_ok_iff _ _ _ _ _).mp rest
    rw [Outcome.mapErr_eq_ok_iff, Method.on_eq_ok_iff] at opening
    rw [Outcome.expect_eq_ok_iff] at unlocked
    cases rest
    exact ⟨rfl, slotBytes, salt, ignored, content, unlocked, opening⟩
  · intro ⟨same, slotBytes, salt, ignored, content, unlocked, opening⟩
    subst same
    refine ⟨(slotBytes, salt), (readVault_eq_ok_iff _ _ _ _ _).mpr ⟨content, rfl⟩, ?_⟩
    refine (Method.lift_bind_eq_ok_iff _ _ _ _ _).mpr ⟨ignored, (Outcome.expect_eq_ok_iff _ _).mpr unlocked, ?_⟩
    refine (Method.lift_bind_eq_ok_iff _ _ _ _ _).mpr ⟨((), v), ?_, rfl⟩
    rw [Outcome.mapErr_eq_ok_iff, Method.on_eq_ok_iff]
    exact opening

theorem writeTable_eq_ok_iff (path : Str) (v : AegisVault) :
    (do
      let bytes ← Method.lift (Outcome.expectSome (v.slotsToBytes crates))
      let salt ← Method.lift (Outcome.expectSome v.slotsHeaderSalt)
      writeVault path bytes salt : Process Unit) disk = (.ok (), after) ↔
      ∃ table, v.slots = some table ∧ disk.refusals path = none ∧
        after = disk.write path (vaultFile (table.toBytes crates) table.headerSalt) := by
  unfold AegisVault.slotsToBytes AegisVault.slotsHeaderSalt
  cases v.slots with
  | none =>
    constructor
    · intro impossible
      cases impossible
    · intro ⟨table, impossible, _⟩
      cases impossible
  | some table =>
    have written := writeFile_eq_ok_iff path (vaultFile (table.toBytes crates) table.headerSalt) disk after
    constructor
    · intro done
      exact ⟨table, rfl, written.mp done⟩
    · intro ⟨found, same, done⟩
      cases same
      exact written.mpr done

theorem initCommand_ok {args : Args} {draws : Draws} (done : initCommand crates args draws disk = (.ok (), after)) :
    ∃ pass out v v' table, (args (ascii "p") = some pass ∧ pass ≠ []) ∧
      (args (ascii "o") = some out ∧ out ≠ []) ∧
      AegisVault.unlock crates pass MASTER_SALT MEM_KIB ITERS = .ok v ∧
      AegisVault.sealSlots crates pass draws.table v = (.ok (), v') ∧ v'.slots = some table ∧
      after = disk.write out (vaultFile (table.toBytes crates) table.headerSalt) := by
  obtain ⟨pass, passGiven, rest⟩ := (req_bind_eq_ok_iff _ _ _ _).mp done
  obtain ⟨out, outGiven, rest⟩ := (req_bind_eq_ok_iff _ _ _ _).mp rest
  obtain ⟨v, unlocked, rest⟩ := (Method.lift_bind_eq_ok_iff _ _ _ _ _).mp rest
  obtain ⟨⟨value, v'⟩, sealing, rest⟩ := (Method.lift_bind_eq_ok_iff _ _ _ _ _).mp rest
  rw [Outcome.mapErr_eq_ok_iff] at unlocked
  rw [Outcome.mapErr_eq_ok_iff, Method.on_eq_ok_iff] at sealing
  obtain ⟨table, held, _, written⟩ := (writeTable_eq_ok_iff crates out v').mp rest
  exact ⟨pass, out, v, v', table, passGiven, outGiven, unlocked, sealing, held, written⟩

theorem addCommand_ok {args : Args} {draws : Draws} (done : addCommand crates args draws disk = (.ok (), after)) :
    ∃ pass newp file v idx v' table, (args (ascii "p") = some pass ∧ pass ≠ []) ∧
      (args (ascii "n") = some newp ∧ newp ≠ []) ∧ (args (ascii "f") = some file ∧ file ≠ []) ∧
      openVault crates file pass disk = (.ok v, disk) ∧
      AegisVault.addSlot crates newp draws.table v = (.ok idx, v') ∧ v'.slots = some table ∧
      after = disk.write file (vaultFile (table.toBytes crates) table.headerSalt) := by
  obtain ⟨pass, passGiven, rest⟩ := (req_bind_eq_ok_iff _ _ _ _).mp done
  obtain ⟨newp, newpGiven, rest⟩ := (req_bind_eq_ok_iff _ _ _ _).mp rest
  obtain ⟨file, fileGiven, rest⟩ := (req_bind_eq_ok_iff _ _ _ _).mp rest
  obtain ⟨v, opened, rest⟩ := (openVault_bind_eq_ok_iff _ _ _ _ _).mp rest
  obtain ⟨⟨idx, v'⟩, adding, rest⟩ := (Method.lift_bind_eq_ok_iff _ _ _ _ _).mp rest
  rw [Outcome.mapErr_eq_ok_iff, Method.on_eq_ok_iff] at adding
  obtain ⟨table, held, _, written⟩ := (writeTable_eq_ok_iff crates file v').mp rest
  exact ⟨pass, newp, file, v, idx, v', table, passGiven, newpGiven, fileGiven, opened, adding, held, written⟩

structure FileFlags (args : Args) (pass file inp outp : Str) : Prop where
  pass : args (ascii "p") = some pass ∧ pass ≠ []
  file : args (ascii "f") = some file ∧ file ≠ []
  inp : args (ascii "i") = some inp ∧ inp ≠ []
  outp : args (ascii "o") = some outp ∧ outp ≠ []

variable {args : Args} {pass file inp outp : Str} (flags : FileFlags args pass file inp outp)
include flags

theorem sealCommand_of_open {draws : Draws} {v : AegisVault} {data nonce ct : List UInt8}
    (opened : openVault crates file pass disk = (.ok v, disk)) (read : disk.files inp = .ok data)
    (encrypted : v.encrypt crates .enc data AAD .xChaCha20Poly1305 draws.fill = .ok (nonce, ct))
    (writable : disk.refusals outp = none) :
    sealCommand crates args draws disk = (.ok (), disk.write outp (sealedBlob nonce ct)) := by
  refine (req_bind_eq_ok_iff _ _ _ _).mpr ⟨pass, flags.pass, ?_⟩
  refine (req_bind_eq_ok_iff _ _ _ _).mpr ⟨file, flags.file, ?_⟩
  refine (req_bind_eq_ok_iff _ _ _ _).mpr ⟨inp, flags.inp, ?_⟩
  refine (req_bind_eq_ok_iff _ _ _ _).mpr ⟨outp, flags.outp, ?_⟩
  refine (openVault_bind_eq_ok_iff _ _ _ _ _).mpr ⟨v, opened, ?_⟩
  refine (readFile_bind_eq_ok_iff _ _ _).mpr ⟨data, read, ?_⟩
  refine (Method.lift_bind_eq_ok_iff _ _ _ _ _).mpr
    ⟨(nonce, ct), (Outcome.mapErr_eq_ok_iff _ _ _).mpr encrypted, ?_⟩
  exact (writeFile_eq_ok_iff _ _ _ _).mpr ⟨writable, rfl⟩

/-- What `open` accepts: any first byte, a nonce behind its length, and a ciphertext that decrypts. -/
theorem openCommand_eq_ok_iff {v : AegisVault} {blob : List UInt8}
    (opened : openVault crates file pass disk = (.ok v, disk)) (read : disk.files inp = .ok blob) :
    openCommand crates args disk = (.ok (), after) ↔ ∃ first nonce ct pt, nonce.length < 256 ∧
      blob = [first, UInt8.ofNat nonce.length] ++ nonce ++ ct ∧
      v.decrypt crates .enc nonce ct AAD .xChaCha20Poly1305 = .ok pt ∧
      disk.refusals outp = none ∧ after = disk.write outp pt := by
  rw [openCommand, req_bind_of_given flags.pass, req_bind_of_given flags.file, req_bind_of_given flags.inp,
    req_bind_of_given flags.outp, Method.bind_of_ok _ _ opened,
    Method.bind_of_ok _ _ ((readFile_eq_ok_iff _ _ _ _).mpr ⟨read, rfl⟩)]
  constructor
  · intro done
    by_cases short : blob.length < 2
    · rw [if_pos short] at done
      cases done
    rw [if_neg short] at done
    obtain ⟨first, nlen, rest, rfl⟩ := two_of_length (Nat.le_of_not_lt short)
    obtain ⟨_, indexed, done⟩ := (Method.lift_bind_eq_ok_iff _ _ _ _ _).mp done
    cases indexed
    by_cases corrupt : (first :: nlen :: rest).length < 2 + nlen.toNat
    · rw [if_pos corrupt] at done
      cases done
    rw [if_neg corrupt] at done
    have fits := Nat.le_of_not_lt corrupt
    obtain ⟨nonce, front, done⟩ := (Method.lift_bind_eq_ok_iff _ _ _ _ _).mp done
    rw [sliceRange_ok _ _ _ (Nat.le_add_right _ _) fits, Nat.add_sub_cancel_left] at front
    cases front
    obtain ⟨ct, back, done⟩ := (Method.lift_bind_eq_ok_iff _ _ _ _ _).mp done
    rw [sliceRange_back fits] at back
    cases back
    obtain ⟨pt, decrypted, done⟩ := (Method.lift_bind_eq_ok_iff _ _ _ _ _).mp done
    rw [Outcome.mapErr_eq_ok_iff] at decrypted
    obtain ⟨writable, written⟩ := (writeFile_eq_ok_iff _ _ _ _).mp done
    have length : (rest.take nlen.toNat).length = nlen.toNat := by
      rw [List.length_cons, List.length_cons] at fits
      rw [List.length_take]
      omega
    refine ⟨first, rest.take nlen.toNat, _, pt, ?_, ?_, decrypted, writable, written⟩
    · rw [length]
      exact UInt8.toNat_lt _
    · rw [length, UInt8.ofNat_toNat, List.append_assoc, ← List.drop_drop]
      exact congrArg (first :: nlen :: ·) (List.take_append_drop nlen.toNat rest).symm
  · intro ⟨first, nonce, ct, pt, bounded, same, decrypted, writable, written⟩
    have nlen : (UInt8.ofNat nonce.length).toNat = nonce.length := by
      rw [UInt8.toNat_ofNat']
      exact Nat.mod_eq_of_lt bounded
    have head : ([first, UInt8.ofNat nonce.length] ++ nonce).length = 2 + nonce.length := by
      rw [List.length_append]
      rfl
    have length : blob.length = 2 + nonce.length + ct.length := by rw [same, List.length_append, head]
    have front : (blob.drop 2).take (2 + nonce.length - 2) = nonce := by
      have two : [first, UInt8.ofNat nonce.length].length = 2 := rfl
      rw [Nat.add_sub_cancel_left, same, List.append_assoc, List.drop_left' two]
      exact List.take_left' rfl
    have back : blob.drop (2 + nonce.length) = ct := by rw [same, List.drop_left' head]
    rw [if_neg (by omega)]
    refine (Method.lift_bind_eq_ok_iff _ _ _ _ _).mpr ⟨UInt8.ofNat nonce.length, by rw [same]; rfl, ?_⟩
    rw [if_neg (by omega)]
    refine (Method.lift_bind_eq_ok_iff _ _ _ _ _).mpr ⟨nonce, ?_, ?_⟩
    · rw [nlen, sliceRange_ok _ _ _ (by omega) (by omega), front]
    refine (Method.lift_bind_eq_ok_iff _ _ _ _ _).mpr ⟨ct, ?_, ?_⟩
    · rw [nlen, sliceRange_back (by omega), back]
    refine (Method.lift_bind_eq_ok_iff _ _ _ _ _).mpr ⟨pt, (Outcome.mapErr_eq_ok_iff _ _ _).mpr decrypted, ?_⟩
    exact (writeFile_eq_ok_iff _ _ _ _).mpr ⟨writable, written⟩

theorem openCommand_of_blob {v : AegisVault} {nonce ct pt : List UInt8} (short : nonce.length < 256)
    (opened : openVault crates file pass disk = (.ok v, disk)) (read : disk.files inp = .ok (sealedBlob nonce ct))
    (decrypted : v.decrypt crates .enc nonce ct AAD .xChaCha20Poly1305 = .ok pt)
    (writable : disk.refusals outp = none) :
    openCommand crates args disk = (.ok (), disk.write outp pt) :=
  (openCommand_eq_ok_iff crates flags opened read).mpr ⟨0, nonce, ct, pt, short, rfl, decrypted, writable, rfl⟩

end SoteriaAegis.Cli
