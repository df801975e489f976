import SoteriaAegis.Crypto.Hierarchy
import Mathlib.Data.List.Induction

/-! The tree of keys below the masters: a domain key, a sub-key for a context, a sub-key of
that, and so on. While HKDF does not collide, a key has one place in the tree. -/

namespace SoteriaAegis.Crypto
open Rust

structure Derivation where
  ikm : List UInt8
  salt : List UInt8
  info : List UInt8
  deriving DecidableEq

variable (crates : Crates)

def Derivation.output (derivation : Derivation) : AegisResult (U8Array 32) :=
  hkdfSha256 crates derivation.ikm derivation.salt derivation.info

def domainKey (master : U8Array 32) (d : Domain) : AegisResult AegisKey := do
  let hierarchy ← KeyHierarchy.fromMaster crates master.val
  return hierarchy.domain d

/-- The key below a domain key, one sub-key for each context. -/
def treeKey (master : U8Array 32) (d : Domain) (contexts : List (List UInt8)) : AegisResult AegisKey :=
  contexts.foldl (fun parent context => do KeyHierarchy.subkey crates (← parent) context)
    (domainKey crates master d)

/-- The HKDF calls made below `parent`, one for each context for as long as they succeed. -/
def subDerivations (parent : AegisResult AegisKey) : List (List UInt8) → List Derivation
  | [] => []
  | context :: others =>
    (parent.toOption.map fun key => ⟨key.expose, SUBKEY_SALT, context⟩).toList ++
      subDerivations (do KeyHierarchy.subkey crates (← parent) context) others

def derivations (master : U8Array 32) (d : Domain) (contexts : List (List UInt8)) : List Derivation :=
  ⟨master.val, MASTER_SALT, d.infoTag⟩ :: subDerivations crates (domainKey crates master d) contexts

def Separates (listed : List Derivation) : Prop :=
  ∀ first ∈ listed, ∀ second ∈ listed, ∀ okm, first.output crates = .ok okm → second.output crates = .ok okm →
    first = second

variable {crates} {master : U8Array 32} {d : Domain} {contexts : List (List UInt8)} {context : List UInt8}
  {key : AegisKey}

theorem treeKey_snoc : treeKey crates master d (contexts ++ [context]) =
    (treeKey crates master d contexts >>= fun parent => KeyHierarchy.subkey crates parent context) := by
  rw [treeKey, List.foldl_append]
  rfl

theorem treeKey_nil_ok (made : treeKey crates master d [] = .ok key) :
    ∃ okm, Derivation.output crates ⟨master.val, MASTER_SALT, d.infoTag⟩ = .ok okm ∧ key = AegisKey.new32 okm := by
  obtain ⟨hierarchy, derived, same⟩ := (Outcome.bind_eq_ok_iff _ _ _).mp made
  cases same
  exact derive_ok crates (KeyHierarchy.domain_of_fromMaster crates derived d)

theorem treeKey_snoc_ok (made : treeKey crates master d (contexts ++ [context]) = .ok key) :
    ∃ parent okm, treeKey crates master d contexts = .ok parent ∧
      Derivation.output crates ⟨parent.expose, SUBKEY_SALT, context⟩ = .ok okm ∧ key = AegisKey.new32 okm := by
  rw [treeKey_snoc] at made
  obtain ⟨parent, above, below⟩ := (Outcome.bind_eq_ok_iff _ _ _).mp made
  obtain ⟨okm, expanded, same⟩ := (Outcome.bind_eq_ok_iff _ _ _).mp below
  cases same
  exact ⟨parent, okm, above, expanded, rfl⟩

theorem subDerivations_snoc (parent : AegisResult AegisKey) :
    subDerivations crates parent (contexts ++ [context]) = subDerivations crates parent contexts ++
      ((contexts.foldl (fun parent context => do KeyHierarchy.subkey crates (← parent) context)
        parent).toOption.map fun key => ⟨key.expose, SUBKEY_SALT, context⟩).toList := by
  induction contexts generalizing parent with
  | nil => simp [subDerivations]
  | cons head others ih => rw [List.cons_append, subDerivations, ih, ← List.append_assoc, subDerivations, List.foldl_cons]

theorem root_mem : ⟨master.val, MASTER_SALT, d.infoTag⟩ ∈ derivations crates master d contexts := List.mem_cons_self

theorem last_mem {parent : AegisKey} (above : treeKey crates master d contexts = .ok parent) :
    ⟨parent.expose, SUBKEY_SALT, context⟩ ∈ derivations crates master d (contexts ++ [context]) := by
  rw [treeKey] at above
  rw [derivations, subDerivations_snoc, above]
  simp [Outcome.toOption]

theorem derivations_subset : derivations crates master d contexts ⊆ derivations crates master d (contexts ++ [context]) := by
  unfold derivations
  rw [subDerivations_snoc]
  exact List.cons_subset_cons _ (List.subset_append_left _ _)

theorem salts_differ : MASTER_SALT ≠ SUBKEY_SALT := by decide

theorem Separates.mono {some all : List Derivation} (separates : Separates crates all) (included : some ⊆ all) :
    Separates crates some :=
  fun first firstIn second secondIn => separates first (included firstIn) second (included secondIn)

theorem Separates.same_key {listed : List Derivation} (separates : Separates crates listed) {one other : Derivation}
    (oneIn : one ∈ listed) (otherIn : other ∈ listed) {okm otherOkm : U8Array 32} (derived : one.output crates = .ok okm)
    (otherDerived : other.output crates = .ok otherOkm) (same : AegisKey.new32 okm = AegisKey.new32 otherOkm) :
    one = other := by
  rw [AegisKey.new32_injective same] at derived
  exact separates one oneIn other otherIn otherOkm derived otherDerived

/-- No key of the tree occurs twice: not under another master, domain or context, nor on
another level. -/
theorem treeKey_injective (crates : Crates) (m1 m2 : U8Array 32) (d1 d2 : Domain) (cs1 cs2 : List (List UInt8))
    (separates : Separates crates (derivations crates m1 d1 cs1 ++ derivations crates m2 d2 cs2)) (key : AegisKey)
    (first : treeKey crates m1 d1 cs1 = .ok key) (second : treeKey crates m2 d2 cs2 = .ok key) :
    m1 = m2 ∧ d1 = d2 ∧ cs1 = cs2 := by
  induction cs1 using List.reverseRecOn generalizing cs2 key with
  | nil =>
    obtain ⟨okm, derived, rfl⟩ := treeKey_nil_ok first
    cases cs2 using List.reverseRecOn with
    | nil =>
      obtain ⟨other, otherDerived, same⟩ := treeKey_nil_ok second
      have one := separates.same_key (List.mem_append_left _ root_mem) (List.mem_append_right _ root_mem)
        derived otherDerived same
      rw [Derivation.mk.injEq] at one
      exact ⟨Subtype.ext one.1, Domain.infoTag_injective one.2.2, rfl⟩
    | append_singleton contexts context =>
      obtain ⟨parent, other, above, otherDerived, same⟩ := treeKey_snoc_ok second
      have one := separates.same_key (List.mem_append_left _ root_mem) (List.mem_append_right _ (last_mem above))
        derived otherDerived same
      exact absurd (congrArg Derivation.salt one) salts_differ
  | append_singleton contexts context ih =>
    obtain ⟨parent, okm, above, derived, rfl⟩ := treeKey_snoc_ok first
    cases cs2 using List.reverseRecOn with
    | nil =>
      obtain ⟨other, otherDerived, same⟩ := treeKey_nil_ok second
      have one := separates.same_key (List.mem_append_left _ (last_mem above)) (List.mem_append_right _ root_mem)
        derived otherDerived same
      exact absurd (congrArg Derivation.salt one).symm salts_differ
    | append_singleton others last =>
      obtain ⟨otherParent, other, otherAbove, otherDerived, same⟩ := treeKey_snoc_ok second
      have one := separates.same_key (List.mem_append_left _ (last_mem above))
        (List.mem_append_right _ (last_mem otherAbove)) derived otherDerived same
      obtain ⟨sameKey, _, rfl⟩ := Derivation.mk.injEq .. ▸ one
      have sameParent : otherParent = parent := congrArg AegisKey.mk sameKey.symm
      subst sameParent
      have included : derivations crates m1 d1 contexts ++ derivations crates m2 d2 others ⊆
          derivations crates m1 d1 (contexts ++ [context]) ++ derivations crates m2 d2 (others ++ [context]) :=
        List.append_subset.mpr ⟨List.subset_append_of_subset_left _ derivations_subset,
          List.subset_append_of_subset_right _ derivations_subset⟩
      obtain ⟨sameMaster, sameDomain, rfl⟩ := ih others (separates.mono included) otherParent above otherAbove
      exact ⟨sameMaster, sameDomain, rfl⟩

theorem treeKey_levels_differ : ∃ first second,
    treeKey checksumCrates (U8Array.zeros 32) .auth [ascii "a"] = .ok first ∧
    treeKey checksumCrates (U8Array.zeros 32) .enc [ascii "a", ascii "b"] = .ok second ∧ first ≠ second := by
  have checked : ∀ one ∈ derivations checksumCrates (U8Array.zeros 32) .auth [ascii "a"] ++
        derivations checksumCrates (U8Array.zeros 32) .enc [ascii "a", ascii "b"],
      ∀ other ∈ derivations checksumCrates (U8Array.zeros 32) .auth [ascii "a"] ++
        derivations checksumCrates (U8Array.zeros 32) .enc [ascii "a", ascii "b"],
      one.output checksumCrates = other.output checksumCrates → one = other := by
    decide +kernel
  have made : (treeKey checksumCrates (U8Array.zeros 32) .auth [ascii "a"]).toOption.isSome = true ∧
      (treeKey checksumCrates (U8Array.zeros 32) .enc [ascii "a", ascii "b"]).toOption.isSome = true := by
    decide +kernel
  obtain ⟨first, firstOk⟩ := Outcome.ok_of_isSome made.1
  obtain ⟨second, secondOk⟩ := Outcome.ok_of_isSome made.2
  refine ⟨first, second, firstOk, secondOk, fun same => ?_⟩
  have separates : Separates checksumCrates _ := fun one oneIn other otherIn okm oneGives otherGives =>
    checked one oneIn other otherIn (oneGives.trans otherGives.symm)
  have placed := treeKey_injective checksumCrates _ _ _ _ _ _ separates first firstOk (same ▸ secondOk)
  cases placed.2.1

end SoteriaAegis.Crypto
