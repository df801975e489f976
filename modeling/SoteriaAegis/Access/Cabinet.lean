import SoteriaAegis.Rust.Run
import Mathlib.Logic.Function.Basic

/-! Files as their users see them: data, vaults with the credentials that open them, and files
sealed with the secret of a vault. What a request does to them, and when it is refused. -/

namespace SoteriaAegis.Access
open Rust
variable {ν κ α β : Type}

inductive Content (κ α β : Type) where
  | plain (data : β)
  | vault (secret : κ) (members : List α)
  | sealed (secret : κ) (inner : Content κ α β)

structure Cabinet (ν κ α β : Type) where
  files : ν → Option (Content κ α β)
  writable : ν → Bool

inductive Request (ν α : Type) where
  | create (founder : α) (out : ν)
  | enroll (member newcomer : α) (file : ν)
  | wrap (member : α) (file inp out : ν)
  | unwrap (member : α) (file inp out : ν)
  | check (member : α) (file : ν)

def Content.Founded (known : κ → Prop) : Content κ α β → Prop
  | plain _ => True
  | vault secret _ => known secret
  | sealed secret inner => known secret ∧ inner.Founded known

namespace Cabinet
variable {cabinet next : Cabinet ν κ α β} {file path inp out : ν}
  {member newcomer founder : α} {secret : κ}
  {content : Content κ α β} {secretOf : α → κ} {limit : Nat} {known : κ → Prop}

def Founded (known : κ → Prop) (cabinet : Cabinet ν κ α β) : Prop :=
  ∀ path content, cabinet.files path = some content → content.Founded known

section
variable [DecidableEq α]

def access (cabinet : Cabinet ν κ α β) (file : ν) (credential : α) : Option κ :=
  match cabinet.files file with
  | some (.vault secret members) => if credential ∈ members then some secret else none
  | _ => none

theorem access_eq_some_iff : cabinet.access file member = some secret ↔
    ∃ members, cabinet.files file = some (.vault secret members) ∧ member ∈ members := by
  unfold access
  cases cabinet.files file with
  | none => simp
  | some content =>
    cases content with
    | plain data => simp
    | vault found members => simp [and_comm, eq_comm]
    | sealed found inner => simp

theorem Founded.access (founded : cabinet.Founded known)
    (accessed : cabinet.access file member = some secret) :
    known secret := by
  obtain ⟨members, found, _⟩ := access_eq_some_iff.mp accessed
  exact founded file _ found

end

section
variable [DecidableEq ν]

def put (cabinet : Cabinet ν κ α β) (path : ν) (content : Content κ α β) :
    Option (Cabinet ν κ α β) :=
  if cabinet.writable path then some
    { cabinet with files := Function.update cabinet.files path (some content) }
  else none

theorem put_eq_some_iff : cabinet.put path content = some next ↔ cabinet.writable path = true ∧
    next = { cabinet with files := Function.update cabinet.files path (some content) } := by
  unfold put
  split
  next writable => simp [writable, eq_comm]
  next refused => simp [refused]

theorem put_same (done : cabinet.put path content = some next) :
    next.files path = some content := by
  obtain ⟨_, rfl⟩ := put_eq_some_iff.mp done
  exact Function.update_self ..

theorem put_other (done : cabinet.put path content = some next) (differ : file ≠ path) :
    next.files file = cabinet.files file := by
  obtain ⟨_, rfl⟩ := put_eq_some_iff.mp done
  exact Function.update_of_ne differ ..

theorem put_writable (done : cabinet.put path content = some next) :
    next.writable = cabinet.writable := by
  obtain ⟨_, rfl⟩ := put_eq_some_iff.mp done
  rfl

theorem Founded.put (founded : cabinet.Founded known) (held : content.Founded known)
    (done : cabinet.put path content = some next) : next.Founded known := by
  intro other found at_other
  by_cases same : other = path
  · rw [same, put_same done, Option.some.injEq] at at_other
    rw [← at_other]
    exact held
  · rw [put_other done same] at at_other
    exact founded other found at_other

end

variable [DecidableEq ν] [DecidableEq κ] [DecidableEq α]

/-- What is left when the request is granted. A founder's secret depends on the founder alone. -/
def perform (secretOf : α → κ) (limit : Nat) (cabinet : Cabinet ν κ α β) :
    Request ν α → Option (Cabinet ν κ α β)
  | .create founder out => cabinet.put out (.vault (secretOf founder) [founder])
  | .enroll member newcomer file =>
    match cabinet.files file with
    | some (.vault secret members) =>
      if member ∈ members ∧ members.length < limit then cabinet.put file
        (.vault secret (members ++ [newcomer]))
      else none
    | _ => none
  | .wrap member file inp out => do
    let secret ← cabinet.access file member
    let content ← cabinet.files inp
    cabinet.put out (.sealed secret content)
  | .unwrap member file inp out => do
    let secret ← cabinet.access file member
    match cabinet.files inp with
    | some (.sealed other inner) => if other = secret then cabinet.put out inner else none
    | _ => none
  | .check member file => (cabinet.access file member).map fun _ => cabinet

/-- A request that is refused, or cannot be understood, changes nothing. -/
def step (secretOf : α → κ) (limit : Nat) (cabinet : Cabinet ν κ α β)
    (request : Option (Request ν α)) :
    Cabinet ν κ α β :=
  (request.bind (cabinet.perform secretOf limit)).getD cabinet

theorem perform_enroll_iff :
    cabinet.perform secretOf limit (.enroll member newcomer file) = some next ↔
    ∃ secret members, cabinet.files file = some (.vault secret members) ∧ member ∈ members ∧
      members.length < limit ∧
      cabinet.put file (.vault secret (members ++ [newcomer])) = some next := by
  rw [perform]
  cases cabinet.files file with
  | none => simp
  | some content =>
    cases content with
    | plain data => simp
    | vault secret members => simp [and_assoc]
    | sealed secret inner => simp

theorem perform_wrap_iff : cabinet.perform secretOf limit (.wrap member file inp out) = some next ↔
    ∃ secret content, cabinet.access file member = some secret ∧ cabinet.files inp = some content ∧
      cabinet.put out (.sealed secret content) = some next := by
  simp only [perform, Option.bind_eq_bind, Option.bind_eq_some_iff]
  constructor
  · intro ⟨secret, accessed, content, found, done⟩
    exact ⟨secret, content, accessed, found, done⟩
  · intro ⟨secret, content, accessed, found, done⟩
    exact ⟨secret, accessed, content, found, done⟩

theorem perform_unwrap_iff :
    cabinet.perform secretOf limit (.unwrap member file inp out) = some next ↔
    ∃ secret inner, cabinet.access file member = some secret ∧
    cabinet.files inp = some (.sealed secret inner) ∧
      cabinet.put out inner = some next := by
  simp only [perform, Option.bind_eq_bind, Option.bind_eq_some_iff]
  constructor
  · intro ⟨secret, accessed, done⟩
    split at done
    next other inner found =>
      obtain ⟨same, written⟩ := Option.ite_none_right_eq_some.mp done
      exact ⟨secret, inner, accessed, same ▸ found, written⟩
    next => cases done
  · intro ⟨secret, inner, accessed, found, written⟩
    refine ⟨secret, accessed, ?_⟩
    simp only [found, if_true]
    exact written

theorem perform_check_iff : cabinet.perform secretOf limit (.check member file) = some next ↔
    (∃ secret, cabinet.access file member = some secret) ∧ next = cabinet := by
  rw [perform, Option.map_eq_some_iff]
  constructor
  · intro ⟨secret, accessed, same⟩
    exact ⟨⟨secret, accessed⟩, same.symm⟩
  · intro ⟨⟨secret, accessed⟩, same⟩
    exact ⟨secret, accessed, same.symm⟩

theorem Founded.perform (founded : cabinet.Founded known) {request : Request ν α}
    (founders : ∀ founder out, request = .create founder out → known (secretOf founder))
    (done : cabinet.perform secretOf limit request = some next) : next.Founded known := by
  cases request with
  | create founder out =>
    have held : (Content.vault (secretOf founder) [founder] : Content κ α β).Founded known :=
      founders founder out rfl
    exact founded.put held done
  | enroll member newcomer file =>
    obtain ⟨secret, members, found, _, _, written⟩ := perform_enroll_iff.mp done
    have passed : known secret := founded file _ found
    have held : (Content.vault secret (members ++ [newcomer]) : Content κ α β).Founded known :=
      passed
    exact founded.put held written
  | wrap member file inp out =>
    obtain ⟨secret, content, accessed, found, written⟩ := perform_wrap_iff.mp done
    have held : (Content.sealed secret content).Founded known :=
      ⟨founded.access accessed, founded inp content found⟩
    exact founded.put held written
  | unwrap member file inp out =>
    obtain ⟨secret, inner, _, found, written⟩ := perform_unwrap_iff.mp done
    exact founded.put (founded inp _ found).2 written
  | check member file =>
    obtain ⟨_, rfl⟩ := perform_check_iff.mp done
    exact founded

end Cabinet
end SoteriaAegis.Access
