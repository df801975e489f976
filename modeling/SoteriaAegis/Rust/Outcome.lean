import Mathlib.Data.List.Basic

/-! Calls of a language with recoverable errors and panics. An error is handed to
the caller, who may go on; a panic ends the process. A method also owns a mutable
receiver, and keeps the writes it made before it failed. -/

namespace SoteriaAegis.Rust

inductive Outcome (ε α : Type) where
  | ok (value : α)
  | err (error : ε)
  | panic
  deriving DecidableEq, Repr

namespace Outcome
variable {ε δ α β : Type}

protected def bind (first : Outcome ε α) (next : α → Outcome ε β) : Outcome ε β :=
  match first with
  | ok value => next value
  | err error => err error
  | panic => panic

instance : Monad (Outcome ε) where
  pure := ok
  bind := Outcome.bind

@[simp] theorem pure_eq (value : α) : (pure value : Outcome ε α) = ok value := rfl

@[simp] theorem ok_bind (value : α) (next : α → Outcome ε β) : (ok value >>= next) = next value := rfl

@[simp] theorem err_bind (error : ε) (next : α → Outcome ε β) :
    (err error >>= next) = err error := rfl

@[simp] theorem panic_bind (next : α → Outcome ε β) : (panic >>= next) = panic := rfl

theorem ok_ne_panic (value : α) : (ok value : Outcome ε α) ≠ panic := nofun

theorem err_ne_panic (error : ε) : (err error : Outcome ε α) ≠ panic := nofun

theorem bind_eq_ok_iff (first : Outcome ε α) (next : α → Outcome ε β) (result : β) :
    (first >>= next) = ok result ↔ ∃ value, first = ok value ∧ next value = ok result := by
  cases first with
  | ok value => simp
  | err error => simp
  | panic => simp

theorem bind_eq_panic_iff (first : Outcome ε α) (next : α → Outcome ε β) :
    (first >>= next) = panic ↔ first = panic ∨ ∃ value, first = ok value ∧ next value = panic := by
  cases first with
  | ok value => simp
  | err error => simp
  | panic => simp

/-- What may panic behind a call is asked only of the values that the call can return. -/
theorem bind_ne_panic {first : Outcome ε α} {next : α → Outcome ε β} (returns : first ≠ panic)
    (others : ∀ value, first = ok value → next value ≠ panic) : (first >>= next) ≠ panic := by
  intro panicked
  rcases (bind_eq_panic_iff first next).mp panicked with here | ⟨value, returned, later⟩
  · exact returns here
  · exact others value returned later

theorem bind_eq_err_iff (first : Outcome ε α) (next : α → Outcome ε β) (error : ε) :
    (first >>= next) = err error ↔ first = err error ∨ ∃ value, first = ok value ∧ next value = err error := by
  cases first with
  | ok value => simp
  | err found => simp
  | panic => simp

def toOption : Outcome ε α → Option α
  | ok value => some value
  | _ => none

theorem toOption_eq_some_iff (result : Outcome ε α) (value : α) :
    result.toOption = some value ↔ result = ok value := by
  cases result with
  | ok found => simp [toOption]
  | err error => simp [toOption]
  | panic => simp [toOption]

theorem ok_of_any {result : Outcome ε α} {test : α → Bool} (passed : result.toOption.any test = true) :
    ∃ value, result = ok value ∧ test value = true := by
  obtain ⟨value, found, passes⟩ := (Option.any_eq_true _ _).mp passed
  exact ⟨value, (toOption_eq_some_iff _ _).mp found, passes⟩

theorem ok_of_isSome {result : Outcome ε α} (answered : result.toOption.isSome = true) :
    ∃ value, result = ok value := by
  obtain ⟨value, found⟩ := Option.isSome_iff_exists.mp answered
  exact ⟨value, (toOption_eq_some_iff _ _).mp found⟩

def mapErr (convert : ε → δ) : Outcome ε α → Outcome δ α
  | ok value => ok value
  | err error => err (convert error)
  | panic => panic

/-- `Option::ok_or`, and `map_err` on a result whose error carries nothing. -/
def okOr (error : ε) : Option α → Outcome ε α
  | some value => ok value
  | none => err error

def expect : Outcome ε α → Outcome δ α
  | ok value => ok value
  | err _ => panic
  | panic => panic

def expectSome : Option α → Outcome ε α
  | some value => ok value
  | none => panic

/-- A raw index `xs[i]`, which panics out of bounds. -/
def index (xs : List α) (i : Nat) : Outcome ε α :=
  match xs[i]? with
  | some value => ok value
  | none => panic

@[simp] theorem expectSome_some (value : α) : (expectSome (some value) : Outcome ε α) = ok value := rfl

@[simp] theorem okOr_some (error : ε) (value : α) : okOr error (some value) = ok value := rfl

@[simp] theorem okOr_none (error : ε) : okOr error (none : Option α) = err error := rfl

theorem okOr_eq_ok_iff (error : ε) (answer : Option α) (value : α) :
    okOr error answer = ok value ↔ answer = some value := by
  cases answer with
  | none => simp
  | some found => simp

theorem okOr_eq_err_iff (error found : ε) (answer : Option α) :
    okOr error answer = err found ↔ answer = none ∧ error = found := by
  cases answer with
  | none => simp
  | some value => simp

theorem okOr_ne_panic (error : ε) (answer : Option α) : okOr error answer ≠ panic := by
  cases answer with
  | none => simp
  | some found => simp

theorem mapErr_eq_ok_iff (convert : ε → δ) (result : Outcome ε α) (value : α) :
    mapErr convert result = ok value ↔ result = ok value := by
  cases result with
  | ok found => simp [mapErr]
  | err error => simp [mapErr]
  | panic => simp [mapErr]

theorem mapErr_ne_panic {convert : ε → δ} {result : Outcome ε α} (returns : result ≠ panic) :
    mapErr convert result ≠ panic := by
  cases result with
  | ok found => simp [mapErr]
  | err error => simp [mapErr]
  | panic => exact absurd rfl returns

theorem expect_eq_ok_iff (result : Outcome ε α) (value : α) :
    (expect result : Outcome δ α) = ok value ↔ result = ok value := by
  cases result with
  | ok found => simp [expect]
  | err error => simp [expect]
  | panic => simp [expect]

theorem index_of_lt (xs : List α) (i : Nat) (inside : i < xs.length) :
    (index xs i : Outcome ε α) = ok xs[i] := by
  simp only [index, List.getElem?_eq_getElem inside]

theorem index_of_le (xs : List α) (i : Nat) (outside : xs.length ≤ i) :
    (index xs i : Outcome ε α) = panic := by
  simp only [index, List.getElem?_eq_none outside]

theorem index_ok (xs : List α) (i : Nat) (value : α) (found : xs[i]? = some value) :
    (index xs i : Outcome ε α) = ok value := by
  simp only [index, found]

end Outcome

/-- A call on a mutable receiver of type `σ`. -/
def Method (σ ε α : Type) : Type := σ → Outcome ε α × σ

namespace Method
variable {σ ε α β : Type}

protected def bind (first : Method σ ε α) (next : α → Method σ ε β) : Method σ ε β := fun state =>
  match first state with
  | (.ok value, after) => next value after
  | (.err error, after) => (.err error, after)
  | (.panic, after) => (.panic, after)

instance : Monad (Method σ ε) where
  pure value := fun state => (.ok value, state)
  bind := Method.bind

def lift (call : Outcome ε α) : Method σ ε α := fun state => (call, state)

/-- A call on a local variable, which goes away with an error. -/
def on (call : Method σ ε α) (receiver : σ) : Outcome ε (α × σ) :=
  match call receiver with
  | (.ok value, after) => .ok (value, after)
  | (.err error, _) => .err error
  | (.panic, _) => .panic

def self : Method σ ε σ := fun state => (.ok state, state)

def update (write : σ → σ) : Method σ ε Unit := fun state => (.ok (), write state)

def fail (error : ε) : Method σ ε α := fun state => (.err error, state)

@[simp] theorem pure_apply (value : α) (state : σ) :
    (pure value : Method σ ε α) state = (.ok value, state) := rfl

@[simp] theorem lift_apply (call : Outcome ε α) (state : σ) :
    (lift call : Method σ ε α) state = (call, state) := rfl

@[simp] theorem self_apply (state : σ) : (self : Method σ ε σ) state = (.ok state, state) := rfl

@[simp] theorem update_apply (write : σ → σ) (state : σ) :
    (update write : Method σ ε Unit) state = (.ok (), write state) := rfl

@[simp] theorem fail_apply (error : ε) (state : σ) :
    (fail error : Method σ ε α) state = (.err error, state) := rfl

theorem on_eq_ok_iff (call : Method σ ε α) (state after : σ) (value : α) :
    call.on state = .ok (value, after) ↔ call state = (.ok value, after) := by
  unfold on
  cases call state with
  | mk result next =>
    cases result with
    | ok found => simp
    | err error => simp
    | panic => simp

theorem eq_of_fst (call : Method σ ε α) {state : σ} {result : Outcome ε α} (returned : (call state).1 = result) :
    call state = (result, (call state).2) := Prod.ext returned rfl

theorem bind_apply (first : Method σ ε α) (next : α → Method σ ε β) (state : σ) :
    (first >>= next) state =
      match first state with
      | (.ok value, after) => next value after
      | (.err error, after) => (.err error, after)
      | (.panic, after) => (.panic, after) := rfl

theorem bind_of_ok (first : Method σ ε α) (next : α → Method σ ε β) {state after : σ} {value : α}
    (step : first state = (.ok value, after)) : (first >>= next) state = next value after := by
  rw [bind_apply, step]

theorem bind_of_err (first : Method σ ε α) (next : α → Method σ ε β) {state after : σ} {error : ε}
    (step : first state = (.err error, after)) : (first >>= next) state = (.err error, after) := by
  rw [bind_apply, step]

theorem bind_of_panic (first : Method σ ε α) (next : α → Method σ ε β) {state after : σ}
    (step : first state = (.panic, after)) : (first >>= next) state = (.panic, after) := by
  rw [bind_apply, step]

theorem bind_assoc {γ : Type} (first : Method σ ε α) (next : α → Method σ ε β) (last : β → Method σ ε γ) :
    ((first >>= next) >>= last) = (first >>= fun value => next value >>= last) := by
  funext state
  rw [bind_apply, bind_apply, bind_apply]
  cases first state with
  | mk result after =>
    cases result with
    | ok value => rfl
    | err error => rfl
    | panic => rfl

theorem lift_bind (first : Outcome ε α) (next : α → Outcome ε β) :
    (lift (first >>= next) : Method σ ε β) = (lift first >>= fun value => lift (next value)) := by
  funext state
  cases first with
  | ok value => rfl
  | err error => rfl
  | panic => rfl

theorem lift_bind_eq_ok_iff (call : Outcome ε α) (next : α → Method σ ε β) (state final : σ) (result : β) :
    (lift call >>= next) state = (.ok result, final) ↔
      ∃ value, call = .ok value ∧ next value state = (.ok result, final) := by
  rw [bind_apply, lift_apply]
  cases call with
  | ok value => simp
  | err error => simp
  | panic => simp

theorem lift_bind_eq_err_iff (call : Outcome ε α) (next : α → Method σ ε β) (state final : σ) (error : ε) :
    (lift call >>= next) state = (.err error, final) ↔
      call = .err error ∧ final = state ∨ ∃ value, call = .ok value ∧ next value state = (.err error, final) := by
  rw [bind_apply, lift_apply]
  cases call with
  | ok value => simp
  | err error => simp [eq_comm]
  | panic => simp

theorem bind_ne_panic {first : Method σ ε α} {next : α → Method σ ε β} {state : σ}
    (returns : (first state).1 ≠ .panic)
    (others : ∀ value after, first state = (.ok value, after) → (next value after).1 ≠ .panic) :
    ((first >>= next) state).1 ≠ .panic := by
  rw [bind_apply]
  cases ran : first state with
  | mk result after =>
    cases result with
    | ok value => exact others value after ran
    | err error => exact Outcome.err_ne_panic error
    | panic => exact absurd (congrArg Prod.fst ran) returns

theorem lift_bind_ne_panic {call : Outcome ε α} {next : α → Method σ ε β} {state : σ} (returns : call ≠ .panic)
    (others : ∀ value, call = .ok value → (next value state).1 ≠ .panic) :
    ((lift call >>= next) state).1 ≠ .panic := by
  apply bind_ne_panic returns
  intro value after returned
  cases returned
  exact others value rfl

theorem self_bind (next : σ → Method σ ε β) (state : σ) : (self >>= next) state = next state state := rfl

theorem update_bind (write : σ → σ) (next : Unit → Method σ ε β) (state : σ) :
    (update write >>= next) state = next () (write state) := rfl

def Reads (call : Method σ ε α) : Prop := ∀ state, (call state).2 = state

/-- The call changes its receiver only when it succeeds. -/
def Atomic (call : Method σ ε α) : Prop := ∀ state, (∃ value, (call state).1 = .ok value) ∨ (call state).2 = state

theorem reads_pure (value : α) : (pure value : Method σ ε α).Reads := fun _ => rfl

theorem reads_lift (call : Outcome ε α) : (lift call : Method σ ε α).Reads := fun _ => rfl

theorem reads_fail (error : ε) : (fail error : Method σ ε α).Reads := fun _ => rfl

theorem reads_ite {condition : Prop} [Decidable condition] {first second : Method σ ε α} (yes : first.Reads)
    (no : second.Reads) : (if condition then first else second).Reads := by
  split
  · exact yes
  · exact no

theorem atomic_ite {condition : Prop} [Decidable condition] {first second : Method σ ε α} (yes : first.Atomic)
    (no : second.Atomic) : (if condition then first else second).Atomic := by
  split
  · exact yes
  · exact no

theorem Reads.eq_of_fst {call : Method σ ε α} (reads : call.Reads) {state : σ} {result : Outcome ε α}
    (returned : (call state).1 = result) : call state = (result, state) := Prod.ext returned (reads state)

theorem Reads.atomic {call : Method σ ε α} (reads : call.Reads) : call.Atomic := fun state => Or.inr (reads state)

theorem Reads.bind {first : Method σ ε α} {next : α → Method σ ε β} (reads : first.Reads)
    (others : ∀ value, (next value).Reads) : (first >>= next).Reads := by
  intro state
  have same := reads state
  rw [bind_apply]
  cases ran : first state with
  | mk result after =>
    rw [ran] at same
    subst same
    cases result with
    | ok value => exact others value after
    | err error => rfl
    | panic => rfl

theorem Reads.bind_atomic {first : Method σ ε α} {next : α → Method σ ε β} (reads : first.Reads)
    (others : ∀ value, (next value).Atomic) : (first >>= next).Atomic := by
  intro state
  have same := reads state
  rw [bind_apply]
  cases ran : first state with
  | mk result after =>
    rw [ran] at same
    subst same
    cases result with
    | ok value => exact others value after
    | err error => exact Or.inr rfl
    | panic => exact Or.inr rfl

theorem Reads.bind_eq_ok_iff {first : Method σ ε α} {next : α → Method σ ε β} (reads : first.Reads)
    (state final : σ) (result : β) :
    (first >>= next) state = (.ok result, final) ↔
      ∃ value, first state = (.ok value, state) ∧ next value state = (.ok result, final) := by
  have same := reads state
  rw [bind_apply]
  cases ran : first state with
  | mk found after =>
    rw [ran] at same
    subst same
    cases found with
    | ok value => simp
    | err error => simp
    | panic => simp

end Method
end SoteriaAegis.Rust
