import SoteriaAegis.Cli.EndToEnd

/-! Sealed files and the byte strings that `open` takes for them. Everything in a file is bound
to the key and to the plaintext, but its first byte, which `open` does not look at. -/

namespace SoteriaAegis.Cli
open Rust Crypto Slots Vault

/-- XChaCha20-Poly1305 opens nothing but what it seals. -/
def OpensOnlySealed (crates : Crates) : Prop :=
  ∀ key nonce msg aad ct, crates.xChaChaDecrypt key nonce ct aad = some msg →
    crates.xChaChaEncrypt key nonce msg aad = some ct

def Sealed (crates : Crates) (v : AegisVault) (pt blob : List UInt8) : Prop :=
  ∃ (key : U8Array 32) (nonce : U8Array 24) (ct : List UInt8), v.domain .enc = AegisKey.new32 key ∧
    crates.xChaChaEncrypt key nonce pt AAD = some ct ∧ blob = [0, 24] ++ nonce.val ++ ct

def Relabelled (crates : Crates) (v : AegisVault) (blob : List UInt8) : Prop :=
  ∃ label others pt, label ≠ 0 ∧ blob = label :: others ∧ Sealed crates v pt (0 :: others)

variable {crates : Crates} {v : AegisVault} {pt blob : List UInt8}

theorem sealed_iff : Sealed crates v pt blob ↔ ∃ fill nonce ct,
    v.encrypt crates .enc pt AAD .xChaCha20Poly1305 fill = .ok (nonce, ct) ∧ blob = sealedBlob nonce ct := by
  constructor
  · intro ⟨key, nonce, ct, keyed, encrypted, same⟩
    let fill : OsFill := fun n => if fits : n = 24 then fits ▸ nonce else U8Array.zeros n
    refine ⟨fill, nonce.val, ct, (encrypt_eq_ok_iff keyed _ _ _ _ _ _).mpr ⟨rfl, encrypted⟩, ?_⟩
    rw [same, sealedBlob, nonce.property]
    rfl
  · intro ⟨fill, nonce, ct, encrypted, same⟩
    obtain ⟨raw, copied, _⟩ := (Outcome.bind_eq_ok_iff _ _ _).mp encrypted
    have keyed : v.domain .enc = AegisKey.new32 raw :=
      congrArg AegisKey.mk ((U8Array.copyFromSlice_eq_ok_iff _ _).mp copied).symm
    obtain ⟨rfl, done⟩ := (encrypt_eq_ok_iff keyed _ _ _ _ _ _).mp encrypted
    refine ⟨raw, fill 24, ct, keyed, done, ?_⟩
    rw [same, sealedBlob]
    have length : (fill AeadAlgo.xChaCha20Poly1305.nonceLen).val.length = 24 := (fill 24).property
    rw [length]
    rfl

theorem decrypted_sealed (only : OpensOnlySealed crates) {nonce ct : List UInt8}
    (decrypted : v.decrypt crates .enc nonce ct AAD .xChaCha20Poly1305 = .ok pt) :
    nonce.length = 24 ∧ Sealed crates v pt ([0, UInt8.ofNat nonce.length] ++ nonce ++ ct) := by
  obtain ⟨raw, copied, _⟩ := (Outcome.bind_eq_ok_iff _ _ _).mp decrypted
  have keyed : v.domain .enc = AegisKey.new32 raw :=
    congrArg AegisKey.mk ((U8Array.copyFromSlice_eq_ok_iff _ _).mp copied).symm
  rw [decrypt_eq keyed, AeadCipher.aeadOpen_eq] at decrypted
  split at decrypted
  next fits =>
    have length : nonce.length = 24 := fits
    have opened := (Outcome.okOr_eq_ok_iff _ _ _).mp decrypted
    refine ⟨length, raw, ⟨nonce, length⟩, ct, keyed, only _ _ _ _ _ opened, ?_⟩
    rw [length]
    rfl
  next => cases decrypted

theorem sealed_decrypts (opens : crates.OpensSealed) (sealed : Sealed crates v pt blob) :
    ∃ nonce ct, nonce.length = 24 ∧ blob = [0, 24] ++ nonce ++ ct ∧
      v.decrypt crates .enc nonce ct AAD .xChaCha20Poly1305 = .ok pt := by
  obtain ⟨key, nonce, ct, keyed, encrypted, same⟩ := sealed
  refine ⟨nonce.val, ct, nonce.property, same, ?_⟩
  rw [decrypt_eq keyed]
  refine (AeadCipher.aeadOpen_val crates (AeadCipher.new .xChaCha20Poly1305 key) nonce ct AAD).trans ?_
  exact (Outcome.okOr_eq_ok_iff _ _ _).mpr (opens.xChaCha key nonce pt AAD ct encrypted)

/-- `open` accepts nothing but sealed files exactly on the files that are not relabelled. -/
theorem open_accepts_sealed_iff (opens : crates.OpensSealed) (only : OpensOnlySealed crates) {args : Args}
    {pass file inp outp : Str} (flags : FileFlags args pass file inp outp) {disk : Disk}
    (opened : openVault crates file pass disk = (.ok v, disk)) (read : disk.files inp = .ok blob)
    (writable : disk.refusals outp = none) :
    (∀ pt after, openCommand crates args disk = (.ok (), after) → after.files outp = .ok pt →
      Sealed crates v pt blob) ↔ ¬Relabelled crates v blob := by
  constructor
  · intro canonical ⟨label, others, pt, foreign, shape, sealed⟩
    obtain ⟨nonce, ct, length, same, decrypted⟩ := sealed_decrypts opens sealed
    have joined : blob = [label, UInt8.ofNat nonce.length] ++ nonce ++ ct := by
      rw [shape, length, (List.cons.inj same).2]
      rfl
    have done : openCommand crates args disk = (.ok (), disk.write outp pt) :=
      (openCommand_eq_ok_iff crates flags opened read).mpr
        ⟨label, nonce, ct, pt, by rw [length]; decide, joined, decrypted, writable, rfl⟩
    obtain ⟨_, _, _, _, _, start⟩ := canonical pt _ done (Disk.write_same disk outp pt)
    rw [shape] at start
    exact foreign (List.cons.inj start).1
  · intro genuine pt after done written
    obtain ⟨first, nonce, ct, found, _, shape, decrypted, _, rfl⟩ :=
      (openCommand_eq_ok_iff crates flags opened read).mp done
    rw [Disk.write_same] at written
    cases written
    obtain ⟨length, sealed⟩ := decrypted_sealed only decrypted
    by_cases labelled : first = 0
    · rw [shape, labelled]
      exact sealed
    · exact absurd ⟨first, _, pt, labelled, shape, sealed⟩ genuine

theorem toOption_eq_some_iff {ε α : Type} {answer : Except ε α} {value : α} :
    answer.toOption = some value ↔ answer = .ok value := by
  cases answer with
  | ok found => simp [Except.toOption]
  | error error => simp [Except.toOption]

theorem checksumCrates_opensOnlySealed : OpensOnlySealed checksumCrates := by
  intro key nonce msg aad ct opened
  have decrypted : checksumOpen key nonce.val ct aad = some msg := opened
  unfold checksumOpen at decrypted
  obtain ⟨⟨_, tag⟩, unmasked⟩ := Option.ite_none_right_eq_some.mp decrypted
  have plain := Option.some.inj unmasked
  rw [plain] at tag
  have sealing : checksumSeal key nonce.val msg aad = some ct :=
    calc
      checksumSeal key nonce.val msg aad = some (mask key msg ++ ct.drop (ct.length - 16)) := by rw [checksumSeal, tag]
      _ = some (ct.take (ct.length - 16) ++ ct.drop (ct.length - 16)) := by
        rw [← plain, mask_mask]
      _ = some ct := by rw [List.take_append_drop]
  exact sealing

def openAsBob : Invocation (ascii "open") :=
  .ofFlags _ [ascii "-p", ascii "bob", ascii "-f", ascii "vault", ascii "-i", ascii "blob", ascii "-o", ascii "copy"]

def letterSealed : Disk :=
  (sealAsBob.exec checksumCrates (addBob.exec checksumCrates (initAlice.exec checksumCrates letterDisk).2).2).2

theorem open_accepts_sealed_letter : ∃ v blob, letterSealed.files (ascii "blob") = .ok blob ∧
    openVault checksumCrates (ascii "vault") (ascii "bob") letterSealed = (.ok v, letterSealed) ∧
    ∀ pt after, openCommand checksumCrates openAsBob.args letterSealed = (.ok (), after) →
      after.files (ascii "copy") = .ok pt → Sealed checksumCrates v pt blob := by
  have checked : ((openVault checksumCrates (ascii "vault") (ascii "bob") letterSealed).1.toOption.any fun _ =>
      letterSealed.refusals (ascii "copy") = none ∧
        (letterSealed.files (ascii "blob")).toOption.any fun blob => blob.head? = some 0) = true := by
    decide +kernel
  obtain ⟨v, opens, checked⟩ := Outcome.ok_of_any checked
  obtain ⟨writable, stored⟩ := of_decide_eq_true checked
  obtain ⟨blob, found, labelled⟩ := (Option.any_eq_true _ _).mp stored
  have opened := (openVault_reads checksumCrates _ _).eq_of_fst opens
  have read := toOption_eq_some_iff.mp found
  have flags : FileFlags openAsBob.args (ascii "bob") (ascii "vault") (ascii "blob") (ascii "copy") := by
    constructor <;> decide
  refine ⟨v, blob, read, opened, (open_accepts_sealed_iff checksumCrates_opensSealed checksumCrates_opensOnlySealed
    flags opened read writable).mpr ?_⟩
  intro ⟨label, others, _, foreign, shape, _⟩
  rw [shape] at labelled
  exact foreign (Option.some.inj (of_decide_eq_true labelled))

/-- `seal` announces the algorithm in the first byte, and `open` accepts any other one in its place. -/
theorem relabelled_accepted : ∃ others opened,
    letterSealed.files (ascii "blob") = .ok (0 :: others) ∧
    openAsBob.exec checksumCrates (letterSealed.write (ascii "blob") (1 :: others)) = (.ok (), opened) ∧
    opened.files (ascii "copy") = .ok (ascii "dear") ∧
    ∀ v pt, ¬Sealed checksumCrates v pt (1 :: others) := by
  have checked : ((letterSealed.files (ascii "blob")).toOption.any fun blob => blob.head? = some 0 ∧
      (openAsBob.exec checksumCrates (letterSealed.write (ascii "blob") (1 :: blob.tail))).1 = .ok () ∧
      (openAsBob.exec checksumCrates (letterSealed.write (ascii "blob") (1 :: blob.tail))).2.files (ascii "copy") =
        .ok (ascii "dear")) = true := by
    decide +kernel
  obtain ⟨blob, found, checked⟩ := (Option.any_eq_true _ _).mp checked
  obtain ⟨labelled, done, copied⟩ := of_decide_eq_true checked
  obtain ⟨others, rfl⟩ := List.head?_eq_some_iff.mp labelled
  rw [List.tail_cons] at done copied
  refine ⟨others, _, toOption_eq_some_iff.mp found, Method.eq_of_fst _ done, copied, ?_⟩
  intro v pt ⟨_, _, _, _, _, start⟩
  cases (List.cons.inj start).1

end SoteriaAegis.Cli
