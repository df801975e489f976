import SoteriaAegis.Crypto.Keys

/-! The key hierarchy: six domain keys derived from one master, and sub-keys below them. -/

namespace SoteriaAegis.Crypto
open Rust

def MASTER_SALT : List UInt8 := ascii "soteria-kh-v1/master-salt"
def SUBKEY_SALT : List UInt8 := ascii "soteria-kh-v1/subkey-salt"

namespace Info

def K_ENC : List UInt8 := ascii "soteria-kh-v1/k-enc/aead-bulk"
def K_AUTH : List UInt8 := ascii "soteria-kh-v1/k-auth/block-mac"
def K_META : List UInt8 := ascii "soteria-kh-v1/k-meta/metadata"
def K_SHARD : List UInt8 := ascii "soteria-kh-v1/k-shard/erasure-coding"
def K_XTS : List UInt8 := ascii "soteria-kh-v1/k-xts/fde-sector"
def K_HANDLE : List UInt8 := ascii "soteria-kh-v1/k-handle/identity"

end Info

inductive Domain where
  | enc
  | auth
  | «meta»
  | shard
  | xts
  | handle
  deriving DecidableEq, Repr

def Domain.infoTag : Domain → List UInt8
  | enc => Info.K_ENC
  | auth => Info.K_AUTH
  | «meta» => Info.K_META
  | shard => Info.K_SHARD
  | xts => Info.K_XTS
  | handle => Info.K_HANDLE

theorem Domain.infoTag_injective : Function.Injective Domain.infoTag := by
  have separate : ∀ first second : Domain, first.infoTag = second.infoTag → first = second := by
    intro first second
    cases first <;> cases second <;> decide
  exact separate

structure KeyHierarchy where
  kEnc : AegisKey
  kAuth : AegisKey
  kMeta : AegisKey
  kShard : AegisKey
  kXts : AegisKey
  kHandle : AegisKey
  deriving DecidableEq, Repr

variable (crates : Crates)

def derive (master tag : List UInt8) : AegisResult AegisKey := do
  let raw ← hkdfSha256 crates master MASTER_SALT tag
  return AegisKey.new raw.val

namespace KeyHierarchy

def fromMaster (master : List UInt8) : AegisResult KeyHierarchy := do
  let kEnc ← derive crates master Info.K_ENC
  let kAuth ← derive crates master Info.K_AUTH
  let kMeta ← derive crates master Info.K_META
  let kShard ← derive crates master Info.K_SHARD
  let kXts ← derive crates master Info.K_XTS
  let kHandle ← derive crates master Info.K_HANDLE
  return ⟨kEnc, kAuth, kMeta, kShard, kXts, kHandle⟩

/-- Volumes from before the hierarchy: every domain key is the master. -/
def legacySingleKey (master : U8Array 32) : KeyHierarchy :=
  ⟨AegisKey.new32 master, AegisKey.new32 master, AegisKey.new32 master, AegisKey.new32 master,
    AegisKey.new32 master, AegisKey.new32 master⟩

def domain (hierarchy : KeyHierarchy) : Domain → AegisKey
  | .enc => hierarchy.kEnc
  | .auth => hierarchy.kAuth
  | .«meta» => hierarchy.kMeta
  | .shard => hierarchy.kShard
  | .xts => hierarchy.kXts
  | .handle => hierarchy.kHandle

def subkey (domain : AegisKey) (context : List UInt8) : AegisResult AegisKey := do
  let raw ← hkdfSha256 crates domain.expose SUBKEY_SALT context
  return AegisKey.new raw.val

end KeyHierarchy

theorem derive_ok {master tag : List UInt8} {key : AegisKey} (derived : derive crates master tag = .ok key) :
    ∃ raw, hkdfSha256 crates master MASTER_SALT tag = .ok raw ∧ key = AegisKey.new32 raw := by
  obtain ⟨raw, found, made⟩ := (Outcome.bind_eq_ok_iff _ _ _).mp derived
  cases made
  exact ⟨raw, found, rfl⟩

theorem derive_err {master tag : List UInt8} {error : AegisError} (failed : derive crates master tag = .err error) :
    error = .hkdf := by
  rcases (Outcome.bind_eq_err_iff _ _ _).mp failed with refused | ⟨raw, _, impossible⟩
  · exact ((Outcome.okOr_eq_err_iff _ _ _).mp refused).2.symm
  · cases impossible

theorem derive_total (expands : crates.ExpandsShort) (master tag : List UInt8) :
    ∃ key, derive crates master tag = .ok key := by
  obtain ⟨raw, found⟩ := hkdfSha256_total crates expands master MASTER_SALT tag
  exact ⟨AegisKey.new raw.val, by rw [derive, found, Outcome.ok_bind, Outcome.pure_eq]⟩

/-- Constructor, labels and accessor agree on which key belongs to which domain. -/
theorem KeyHierarchy.domain_of_fromMaster {master : List UInt8} {hierarchy : KeyHierarchy}
    (made : fromMaster crates master = .ok hierarchy) (d : Domain) :
    derive crates master d.infoTag = .ok (hierarchy.domain d) := by
  obtain ⟨kEnc, enc, rest⟩ := (Outcome.bind_eq_ok_iff _ _ _).mp made
  obtain ⟨kAuth, auth, rest⟩ := (Outcome.bind_eq_ok_iff _ _ _).mp rest
  obtain ⟨kMeta, meta', rest⟩ := (Outcome.bind_eq_ok_iff _ _ _).mp rest
  obtain ⟨kShard, shard, rest⟩ := (Outcome.bind_eq_ok_iff _ _ _).mp rest
  obtain ⟨kXts, xts, rest⟩ := (Outcome.bind_eq_ok_iff _ _ _).mp rest
  obtain ⟨kHandle, handle, rest⟩ := (Outcome.bind_eq_ok_iff _ _ _).mp rest
  cases rest
  cases d with
  | enc => exact enc
  | auth => exact auth
  | «meta» => exact meta'
  | shard => exact shard
  | xts => exact xts
  | handle => exact handle

theorem KeyHierarchy.fromMaster_err {master : List UInt8} {error : AegisError}
    (failed : fromMaster crates master = .err error) : error = .hkdf := by
  rcases (Outcome.bind_eq_err_iff _ _ _).mp failed with refused | ⟨_, _, rest⟩
  · exact derive_err crates refused
  rcases (Outcome.bind_eq_err_iff _ _ _).mp rest with refused | ⟨_, _, rest⟩
  · exact derive_err crates refused
  rcases (Outcome.bind_eq_err_iff _ _ _).mp rest with refused | ⟨_, _, rest⟩
  · exact derive_err crates refused
  rcases (Outcome.bind_eq_err_iff _ _ _).mp rest with refused | ⟨_, _, rest⟩
  · exact derive_err crates refused
  rcases (Outcome.bind_eq_err_iff _ _ _).mp rest with refused | ⟨_, _, rest⟩
  · exact derive_err crates refused
  rcases (Outcome.bind_eq_err_iff _ _ _).mp rest with refused | ⟨_, _, impossible⟩
  · exact derive_err crates refused
  · cases impossible

theorem KeyHierarchy.fromMaster_total (expands : crates.ExpandsShort) (master : List UInt8) :
    ∃ hierarchy, fromMaster crates master = .ok hierarchy := by
  obtain ⟨kEnc, enc⟩ := derive_total crates expands master Info.K_ENC
  obtain ⟨kAuth, auth⟩ := derive_total crates expands master Info.K_AUTH
  obtain ⟨kMeta, meta'⟩ := derive_total crates expands master Info.K_META
  obtain ⟨kShard, shard⟩ := derive_total crates expands master Info.K_SHARD
  obtain ⟨kXts, xts⟩ := derive_total crates expands master Info.K_XTS
  obtain ⟨kHandle, handle⟩ := derive_total crates expands master Info.K_HANDLE
  refine ⟨⟨kEnc, kAuth, kMeta, kShard, kXts, kHandle⟩, ?_⟩
  simp only [fromMaster, enc, auth, meta', shard, xts, handle, Outcome.ok_bind, Outcome.pure_eq]

theorem KeyHierarchy.fromMaster_ne_panic (expands : crates.ExpandsShort) (master : List UInt8) :
    fromMaster crates master ≠ .panic := by
  obtain ⟨hierarchy, derived⟩ := fromMaster_total crates expands master
  rw [derived]
  exact Outcome.ok_ne_panic _

theorem KeyHierarchy.expect_ne_panic {ε : Type} (expands : crates.ExpandsShort) (master : List UInt8) :
    (Outcome.expect (fromMaster crates master) : Outcome ε KeyHierarchy) ≠ .panic := by
  obtain ⟨hierarchy, derived⟩ := fromMaster_total crates expands master
  rw [derived]
  exact Outcome.ok_ne_panic _

end SoteriaAegis.Crypto
