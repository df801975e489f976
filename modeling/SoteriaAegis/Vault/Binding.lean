import SoteriaAegis.Vault.Coherence

/-! What a ciphertext is bound to: the master, the domain, the associated data and the algorithm. -/

namespace SoteriaAegis.Vault
open Rust Crypto Slots

variable {crates : Crates} {vault : AegisVault} {d : Domain} {key : U8Array 32}

theorem encrypt_eq_ok_iff (keyed : vault.domain d = AegisKey.new32 key)
    (plaintext aad nonce ct : List UInt8)
    (algo : AeadAlgo) (fill : OsFill) :
    vault.encrypt crates d plaintext aad algo fill = .ok (nonce, ct) ↔
      nonce = (fill algo.nonceLen).val ∧
      crates.encrypt algo key (fill algo.nonceLen) plaintext aad = some ct := by
  unfold AegisVault.domain at keyed
  simp only [AegisVault.encrypt, keyed, AegisKey.expose_new32, U8Array.copyFromSlice_val,
    Outcome.ok_bind]
  exact AeadCipher.aeadSeal_eq_ok_iff crates (AeadCipher.new algo key) fill plaintext aad nonce ct

theorem decrypt_eq (keyed : vault.domain d = AegisKey.new32 key) (nonce ciphertext aad : List UInt8)
    (algo : AeadAlgo) :
    vault.decrypt crates d nonce ciphertext aad algo =
      (AeadCipher.new algo key).aeadOpen crates nonce ciphertext aad := by
  unfold AegisVault.domain at keyed
  simp only [AegisVault.decrypt, keyed, AegisKey.expose_new32, U8Array.copyFromSlice_val,
    Outcome.ok_bind]

/-- A nonce of one algorithm has the wrong length for the other. -/
theorem aeadOpen_other_algo {sealing opening : AeadAlgo} (differ : sealing ≠ opening)
    (nonce : U8Array sealing.nonceLen) (ciphertext aad : List UInt8) :
    (AeadCipher.new opening key).aeadOpen crates nonce.val ciphertext aad = .err .aeadOpen := by
  have length : nonce.val.length ≠ (AeadCipher.new opening key).algo.nonceLen := by
    intro same
    exact differ (AeadAlgo.nonceLen_injective (nonce.property.symm.trans same))
  rw [AeadCipher.aeadOpen_eq, dif_neg length]

theorem aeadOpen_same_algo (opens : crates.OpensSealed) {algo : AeadAlgo}
    {sealing opening : U8Array 32}
    {nonce : U8Array algo.nonceLen} {plaintext ct a₁ a₂ : List UInt8}
    (encrypted : crates.encrypt algo sealing nonce plaintext a₁ = some ct)
    (rejects : sealing ≠ opening ∨ a₁ ≠ a₂ → crates.decrypt algo opening nonce ct a₂ = none) :
    (AeadCipher.new algo opening).aeadOpen crates nonce.val ct a₂ =
      if sealing = opening ∧ a₁ = a₂ then .ok plaintext else .err .aeadOpen := by
  refine (AeadCipher.aeadOpen_val crates (AeadCipher.new algo opening) nonce ct a₂).trans ?_
  by_cases bound : sealing = opening ∧ a₁ = a₂
  · obtain ⟨rfl, rfl⟩ := bound
    rw [if_pos ⟨rfl, rfl⟩, Outcome.okOr_eq_ok_iff]
    exact opens.decrypt_encrypt algo sealing nonce plaintext a₁ ct encrypted
  · rw [if_neg bound]
    exact congrArg (Outcome.okOr AegisError.aeadOpen) (rejects (not_and_or.mp bound))

theorem Coherent.same_key_iff {raw₁ raw₂ : U8Array MASTER_LEN} {v₁ v₂ : AegisVault}
    (coherent₁ : Coherent crates raw₁ v₁)
    (coherent₂ : Coherent crates raw₂ v₂) {d₁ d₂ : Domain} {key₁ key₂ : U8Array 32}
    (keyed₁ : v₁.domain d₁ = AegisKey.new32 key₁) (keyed₂ : v₂.domain d₂ = AegisKey.new32 key₂)
    (noCollision : ∀ okm, crates.hkdfExpand MASTER_SALT v₁.master.expose d₁.infoTag 32 = some okm →
      crates.hkdfExpand MASTER_SALT v₂.master.expose d₂.infoTag 32 = some okm →
      v₁.master.expose = v₂.master.expose ∧ d₁.infoTag = d₂.infoTag) :
    key₁ = key₂ ↔ v₁.master = v₂.master ∧ d₁ = d₂ := by
  obtain ⟨okm₁, expanded₁, made₁⟩ := coherent₁.domain_key d₁
  obtain ⟨okm₂, expanded₂, made₂⟩ := coherent₂.domain_key d₂
  rw [hkdfSha256, Outcome.okOr_eq_ok_iff] at expanded₁ expanded₂
  rw [AegisKey.new32_injective (made₁.symm.trans keyed₁)] at expanded₁
  rw [AegisKey.new32_injective (made₂.symm.trans keyed₂)] at expanded₂
  constructor
  · intro same
    obtain ⟨masters, tags⟩ := noCollision key₁ expanded₁ (same ▸ expanded₂)
    rw [coherent₁.master, coherent₂.master, AegisKey.expose_new32, AegisKey.expose_new32] at masters
    rw [coherent₁.master, coherent₂.master, Subtype.ext masters]
    exact ⟨rfl, Domain.infoTag_injective tags⟩
  · intro same
    rw [same.1, same.2, expanded₂] at expanded₁
    exact (Option.some.inj expanded₁).symm

/-- Between any two vaults that runs can reach, a ciphertext decrypts to its plaintext under the
same master, domain, associated data and algorithm, and is refused under any other. -/
theorem decrypt_bound (expands : crates.ExpandsShort) (opens : crates.OpensSealed)
    {start₁ start₂ v₁ v₂ : AegisVault} (created₁ : Created crates start₁)
    (created₂ : Created crates start₂)
    (ops₁ ops₂ : List VaultOp) (ran₁ : run (VaultOp.step crates) start₁ ops₁ = some v₁)
    (ran₂ : run (VaultOp.step crates) start₂ ops₂ = some v₂)
    (d₁ d₂ : Domain) (plaintext a₁ a₂ : List UInt8) (g₁ g₂ : AeadAlgo) (fill : OsFill)
    (nonce ct : List UInt8)
    (encrypted : v₁.encrypt crates d₁ plaintext a₁ g₁ fill = .ok (nonce, ct))
    (noCollision : ∀ okm, crates.hkdfExpand MASTER_SALT v₁.master.expose d₁.infoTag 32 = some okm →
      crates.hkdfExpand MASTER_SALT v₂.master.expose d₂.infoTag 32 = some okm →
      v₁.master.expose = v₂.master.expose ∧ d₁.infoTag = d₂.infoTag)
    (rejects : ∀ key₁ key₂ drawn, v₁.domain d₁ = AegisKey.new32 key₁ →
      v₂.domain d₂ = AegisKey.new32 key₂ →
      drawn.val = nonce → crates.encrypt g₁ key₁ drawn plaintext a₁ = some ct →
      key₁ ≠ key₂ ∨ a₁ ≠ a₂ → crates.decrypt g₁ key₂ drawn ct a₂ = none) :
    v₂.decrypt crates d₂ nonce ct a₂ g₂ =
      if v₁.master = v₂.master ∧ d₁ = d₂ ∧ a₁ = a₂ ∧ g₁ = g₂ then .ok plaintext
      else .err .aeadOpen := by
  obtain ⟨raw₁, coherent₁⟩ := reached_coherent crates expands created₁ ran₁
  obtain ⟨raw₂, coherent₂⟩ := reached_coherent crates expands created₂ ran₂
  obtain ⟨key₁, _, keyed₁⟩ := coherent₁.domain_key d₁
  obtain ⟨key₂, _, keyed₂⟩ := coherent₂.domain_key d₂
  have sameKey := coherent₁.same_key_iff coherent₂ keyed₁ keyed₂ noCollision
  obtain ⟨rfl, done⟩ := (encrypt_eq_ok_iff keyed₁ plaintext a₁ nonce ct g₁ fill).mp encrypted
  rw [decrypt_eq keyed₂]
  by_cases algo : g₁ = g₂
  · subst algo
    have opened := aeadOpen_same_algo opens done
      (rejects key₁ key₂ (fill g₁.nonceLen) keyed₁ keyed₂ rfl done)
    simpa only [sameKey, and_assoc, and_true] using opened
  · rw [if_neg (fun equal => algo equal.2.2.2)]
    exact aeadOpen_other_algo algo (fill g₁.nonceLen) ct a₂

def refuses (crates : Crates) (vault : AegisVault) (d : Domain) (algo : AeadAlgo)
    (drawn : U8Array algo.nonceLen) (ct aad : List UInt8) : Bool :=
  (U8Array.copyFromSlice 32 (vault.domain d).expose : AegisResult _).toOption.all fun key =>
    crates.decrypt algo key drawn ct aad = none

theorem decrypt_of_refuses {algo : AeadAlgo} {drawn : U8Array algo.nonceLen} {ct aad : List UInt8}
    (refused : refuses crates vault d algo drawn ct aad = true)
    (keyed : vault.domain d = AegisKey.new32 key) :
    crates.decrypt algo key drawn ct aad = none := by
  rw [refuses, keyed, AegisKey.expose_new32, U8Array.copyFromSlice_val] at refused
  exact of_decide_eq_true refused

/-- One vault decrypts what it has encrypted. Another vault refuses it, and the same vault under
another domain, associated data or algorithm. -/
theorem decrypt_bound_others : ∃ start other v₁ v₂ nonce ct,
    run (VaultOp.step checksumCrates) start [.call (.sealSlots (ascii "alice") TableDraws.blank)] =
      some v₁ ∧
    run (VaultOp.step checksumCrates) other [.call (.rotateMaster (U8Array.zeros 32))] = some v₂ ∧
    v₁.encrypt checksumCrates .enc (ascii "data") (ascii "aad") .xChaCha20Poly1305 U8Array.zeros =
      .ok (nonce, ct) ∧
    v₁.decrypt checksumCrates .enc nonce ct (ascii "aad") .xChaCha20Poly1305 = .ok (ascii "data") ∧
    v₂.decrypt checksumCrates .enc nonce ct (ascii "aad") .xChaCha20Poly1305 = .err .aeadOpen ∧
    v₁.decrypt checksumCrates .auth nonce ct (ascii "aad") .xChaCha20Poly1305 = .err .aeadOpen ∧
    v₁.decrypt checksumCrates .enc nonce ct (ascii "other") .xChaCha20Poly1305 = .err .aeadOpen ∧
    v₁.decrypt checksumCrates .enc nonce ct (ascii "aad") .aes256Gcm = .err .aeadOpen := by
  have reached : ((AegisVault.fromMasterKey checksumCrates ⟨List.replicate 32 1, rfl⟩).toOption.any
    fun start =>
      (AegisVault.unlock checksumCrates (ascii "bob") (ascii "some salt") 32768 2).toOption.any
        fun other =>
      (run (VaultOp.step checksumCrates) start
        [.call (.sealSlots (ascii "alice") TableDraws.blank)]).any fun v₁ =>
      (run (VaultOp.step checksumCrates) other [.call (.rotateMaster (U8Array.zeros 32))]).any
        fun v₂ =>
      (v₁.encrypt checksumCrates .enc (ascii "data") (ascii "aad") .xChaCha20Poly1305
        U8Array.zeros).toOption.any
        fun sealed => sealed.1 = (U8Array.zeros 24).val ∧ v₁.master ≠ v₂.master ∧
          checksumCrates.hkdfExpand MASTER_SALT v₁.master.expose Domain.enc.infoTag 32 ≠
            checksumCrates.hkdfExpand MASTER_SALT v₂.master.expose Domain.enc.infoTag 32 ∧
          checksumCrates.hkdfExpand MASTER_SALT v₁.master.expose Domain.enc.infoTag 32 ≠
            checksumCrates.hkdfExpand MASTER_SALT v₁.master.expose Domain.auth.infoTag 32 ∧
          refuses checksumCrates v₂ .enc .xChaCha20Poly1305 (U8Array.zeros 24) sealed.2
            (ascii "aad") ∧
          refuses checksumCrates v₁ .auth .xChaCha20Poly1305 (U8Array.zeros 24) sealed.2
            (ascii "aad") ∧
          refuses checksumCrates v₁ .enc .xChaCha20Poly1305 (U8Array.zeros 24) sealed.2
            (ascii "other")) = true := by
    decide +kernel
  obtain ⟨start, made, reached⟩ := Outcome.ok_of_any reached
  obtain ⟨other, unlocked, reached⟩ := Outcome.ok_of_any reached
  obtain ⟨v₁, ran₁, reached⟩ := (Option.any_eq_true _ _).mp reached
  obtain ⟨v₂, ran₂, reached⟩ := (Option.any_eq_true _ _).mp reached
  obtain ⟨⟨nonce, ct⟩, encrypted, reached⟩ := Outcome.ok_of_any reached
  obtain ⟨zeros, masters, keys, domains, foreign, authed, spoiled⟩ := of_decide_eq_true reached
  have created₁ := Created.fromMasterKey made
  have created₂ := Created.unlock unlocked
  have mine : ∀ {d : Domain} {aad : List UInt8} {algo : AeadAlgo},
      (Domain.enc ≠ d →
        checksumCrates.hkdfExpand MASTER_SALT v₁.master.expose Domain.enc.infoTag 32 ≠
        checksumCrates.hkdfExpand MASTER_SALT v₁.master.expose d.infoTag 32) →
      (Domain.enc ≠ d ∨ ascii "aad" ≠ aad →
        refuses checksumCrates v₁ d .xChaCha20Poly1305 (U8Array.zeros 24) ct aad = true) →
      v₁.decrypt checksumCrates d nonce ct aad algo =
        if v₁.master = v₁.master ∧ Domain.enc = d ∧ ascii "aad" = aad ∧
          AeadAlgo.xChaCha20Poly1305 = algo
        then .ok (ascii "data") else .err .aeadOpen := by
    intro d aad algo apart refused
    apply decrypt_bound checksumCrates_expandsShort checksumCrates_opensSealed created₁ created₁
      _ _ ran₁ ran₁
      _ _ _ _ _ _ _ _ _ _ encrypted
    · intro okm one two
      by_cases same : Domain.enc = d
      · exact ⟨rfl, congrArg Domain.infoTag same⟩
      · exact absurd (one.trans two.symm) (apart same)
    · intro key₁ key₂ drawn keyed₁ keyed₂ atNonce _ differ
      have blank : drawn = U8Array.zeros 24 := Subtype.ext (atNonce.trans zeros)
      rw [blank]
      refine decrypt_of_refuses (refused ?_) keyed₂
      refine differ.imp_left fun keysDiffer same => keysDiffer ?_
      subst same
      exact AegisKey.new32_injective (keyed₁.symm.trans keyed₂)
  have theirs : v₂.decrypt checksumCrates .enc nonce ct (ascii "aad") .xChaCha20Poly1305 =
      if v₁.master = v₂.master ∧ Domain.enc = Domain.enc ∧ ascii "aad" = ascii "aad" ∧
          AeadAlgo.xChaCha20Poly1305 = AeadAlgo.xChaCha20Poly1305
        then .ok (ascii "data") else .err .aeadOpen := by
    apply decrypt_bound checksumCrates_expandsShort checksumCrates_opensSealed created₁ created₂
      _ _ ran₁ ran₂
      _ _ _ _ _ _ _ _ _ _ encrypted
    · intro okm one two
      exact absurd (one.trans two.symm) keys
    · intro key₁ key₂ drawn _ keyed₂ atNonce _ _
      have blank : drawn = U8Array.zeros 24 := Subtype.ext (atNonce.trans zeros)
      rw [blank]
      exact decrypt_of_refuses foreign keyed₂
  refine ⟨start, other, v₁, v₂, nonce, ct, ran₁, ran₂, encrypted, ?_, ?_, ?_, ?_, ?_⟩
  · refine (mine (absurd rfl) fun differ => ?_).trans (if_pos ⟨rfl, rfl, rfl, rfl⟩)
    exact absurd differ (by decide)
  · exact theirs.trans (if_neg fun same => masters same.1)
  · exact (mine (fun _ => domains) fun _ => authed).trans (if_neg (by simp))
  · exact (mine (absurd rfl) fun _ => spoiled).trans
      (if_neg fun same => absurd same.2.2.1 (by decide))
  · refine (mine (absurd rfl) fun differ => ?_).trans (if_neg (by simp))
    exact absurd differ (by decide)

end SoteriaAegis.Vault
