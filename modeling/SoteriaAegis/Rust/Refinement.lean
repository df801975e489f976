import SoteriaAegis.Rust.Run

/-! A call that does the work of another one on a receiver of another type: started in related
states the two end alike, in related states. The rules follow the shape of the calls, and the
local variables that go away when a scope is left. -/

namespace SoteriaAegis.Rust
variable {σ τ ε α β γ δ ι : Type}

namespace Method

/-- The scope of a local variable: what becomes of the receiver when the scope is left, however that happens. -/
def ensuring (body : Method σ ε α) (cleanup : σ → σ) : Method σ ε α := fun state =>
  ((body state).1, cleanup (body state).2)

/-- The scope of a variable that a value returned takes along: it is cleaned up on a failure only. -/
def onFailure (body : Method σ ε α) (cleanup : σ → σ) : Method σ ε α := fun state =>
  match body state with
  | (.ok value, after) => (.ok value, after)
  | (failed, after) => (failed, cleanup after)

/-- `if let Ok(value) = call`, and another call when it has failed with an error. -/
def orOnError (call : Method σ ε α) (found : α → β) (other : Method σ ε β) :
    Method σ ε β := fun state =>
  match call state with
  | (.ok value, after) => (.ok (found value), after)
  | (.err _, after) => other after
  | (.panic, after) => (.panic, after)

def expect (call : Method σ ε α) : Method σ δ α := fun state =>
  ((call state).1.expect, (call state).2)

def mapErr (convert : ε → δ) (call : Method σ ε α) : Method σ δ α := fun state =>
  (Outcome.mapErr convert (call state).1, (call state).2)

theorem bind_eq_ok_iff {first : Method σ ε α} {next : α → Method σ ε β} {state final : σ}
    {result : β} :
    (first >>= next) state = (.ok result, final) ↔
      ∃ value middle, first state = (.ok value, middle) ∧
      next value middle = (.ok result, final) := by
  rw [bind_apply]
  cases first state with
  | mk returned middle =>
    cases returned with
    | ok value => simp
    | err error => simp
    | panic => simp

theorem ensuring_eq_ok_iff {body : Method σ ε α} {cleanup : σ → σ} {state final : σ} {result : α} :
    body.ensuring cleanup state = (.ok result, final) ↔
      ∃ middle, body state = (.ok result, middle) ∧ cleanup middle = final := by
  unfold ensuring
  cases body state with
  | mk returned middle => simp

theorem onFailure_eq_ok_iff {body : Method σ ε α} {cleanup : σ → σ} {state final : σ} {result : α} :
    body.onFailure cleanup state = (.ok result, final) ↔ body state = (.ok result, final) := by
  unfold onFailure
  cases body state with
  | mk returned middle =>
    cases returned with
    | ok value => rfl
    | err error => simp
    | panic => simp

theorem expect_eq_ok_iff {call : Method σ ε α} {state final : σ} {result : α} :
    (call.expect : Method σ δ α) state = (.ok result, final) ↔
    call state = (.ok result, final) := by
  unfold expect
  cases call state with
  | mk returned middle => simp [Prod.ext_iff, Outcome.expect_eq_ok_iff]

end Method

inductive EndAlike (post : α → β → σ → τ → Prop) (fail : σ → τ → Prop) :
    Outcome ε α × σ → Outcome ε β × τ → Prop
  | ok {value : α} {other : β} {state : σ} {image : τ} (related : post value other state image) :
      EndAlike post fail (.ok value, state) (.ok other, image)
  | err {error : ε} {state : σ} {image : τ} (related : fail state image) :
      EndAlike post fail (.err error, state) (.err error, image)
  | panic {state : σ} {image : τ} (related : fail state image) : EndAlike post fail (.panic, state)
      (.panic, image)

/-- `impl` does the work of `spec` in every two states that `pre` relates. -/
def Method.Refines (impl : Method σ ε α) (spec : Method τ ε β) (pre : σ → τ → Prop)
    (post : α → β → σ → τ → Prop) (fail : σ → τ → Prop) : Prop :=
  ∀ state image, pre state image → EndAlike post fail (impl state) (spec image)

namespace EndAlike
variable {post : α → β → σ → τ → Prop} {fail : σ → τ → Prop} {one : Outcome ε α × σ}
  {two : Outcome ε β × τ}

theorem imp {post' : α → β → σ → τ → Prop} {fail' : σ → τ → Prop}
    (alike : EndAlike post fail one two)
    (posts : ∀ value other state image, post value other state image →
      post' value other state image)
    (fails : ∀ state image, fail state image → fail' state image) :
    EndAlike post' fail' one two := by
  cases alike with
  | ok related => exact .ok (posts _ _ _ _ related)
  | err related => exact .err (fails _ _ related)
  | panic related => exact .panic (fails _ _ related)

end EndAlike

namespace Method.Refines
variable {impl : Method σ ε α} {spec : Method τ ε β} {pre pre' : σ → τ → Prop}
  {post post' : α → β → σ → τ → Prop}
  {fail fail' : σ → τ → Prop}

theorem imp (refines : impl.Refines spec pre post fail)
    (pres : ∀ state image, pre' state image → pre state image)
    (posts : ∀ value other state image, post value other state image →
      post' value other state image)
    (fails : ∀ state image, fail state image → fail' state image) :
    impl.Refines spec pre' post' fail' :=
  fun state image related => (refines state image (pres state image related)).imp posts fails

/-- A fact that the precondition carries may be used while the calls are compared. -/
theorem given {fact : Prop} (known : ∀ state image, pre state image → fact)
    (refines : fact → impl.Refines spec pre post fail) : impl.Refines spec pre post fail :=
  fun state image related => refines (known state image related) state image related

theorem pure {value : α} {other : β}
    (related : ∀ state image, pre state image → post value other state image) :
    (Pure.pure value : Method σ ε α).Refines (Pure.pure other : Method τ ε β) pre post fail :=
  fun state image before => .ok (related state image before)

theorem fails {error : ε} (related : ∀ state image, pre state image → fail state image) :
    (Method.fail error : Method σ ε α).Refines (Method.fail error : Method τ ε β) pre post fail :=
  fun state image before => .err (related state image before)

theorem update {write : σ → σ} {write' : τ → τ} {post : Unit → Unit → σ → τ → Prop}
    (related : ∀ state image, pre state image → post () () (write state) (write' image)) :
    (Method.update write : Method σ ε Unit).Refines (Method.update write' : Method τ ε Unit)
      pre post fail :=
  fun state image before => .ok (related state image before)

theorem bind (mid : α → β → σ → τ → Prop) {next : α → Method σ ε γ} {next' : β → Method τ ε δ}
    {post : γ → δ → σ → τ → Prop} (first : impl.Refines spec pre mid fail)
    (others : ∀ value other, (next value).Refines (next' other) (mid value other) post fail) :
    (impl >>= next).Refines (spec >>= next') pre post fail := by
  intro state image related
  have ended := first state image related
  rw [bind_apply, bind_apply]
  generalize impl state = one at ended
  generalize spec image = two at ended
  cases ended with
  | ok between => exact others _ _ _ _ between
  | err failed => exact .err failed
  | panic failed => exact .panic failed

theorem ite {condition : Prop} [Decidable condition] {other : Method σ ε α} {other' : Method τ ε β}
    (yes : impl.Refines spec pre post fail) (no : other.Refines other' pre post fail) :
    (if condition then impl else other).Refines (if condition then spec else other') pre
      post fail := by
  split
  · exact yes
  · exact no

theorem lifted (call : Outcome ε α) :
    (Method.lift call : Method σ ε α).Refines (Method.lift call : Method τ ε α) pre
    (fun one other state image => one = other ∧ pre state image) pre := by
  intro state image related
  cases call with
  | ok value => exact .ok ⟨rfl, related⟩
  | err error => exact .err related
  | panic => exact .panic related

theorem lift_bind {call : Outcome ε γ} {next : γ → Method σ ε α} {next' : γ → Method τ ε β}
    (failing : ∀ state image, pre state image → fail state image)
    (others : ∀ value, call = .ok value → (next value).Refines (next' value) pre post fail) :
    (lift call >>= next).Refines (lift call >>= next') pre post fail := by
  intro state image related
  rw [bind_apply, bind_apply, lift_apply, lift_apply]
  cases call with
  | ok value => exact others value rfl state image related
  | err error => exact .err (failing state image related)
  | panic => exact .panic (failing state image related)

theorem self_bind {next : σ → Method σ ε α} {next' : τ → Method τ ε β}
    (others : ∀ state image, pre state image →
      EndAlike post fail (next state state) (next' image image)) :
    (self >>= next).Refines (self >>= next') pre post fail := others

theorem ensuring {cleanup : σ → σ} {fail₀ : σ → τ → Prop} {post₀ : α → β → σ → τ → Prop}
    (refines : impl.Refines spec pre post₀ fail₀)
    (returned : ∀ value other state image, post₀ value other state image →
      post value other (cleanup state) image)
    (failed : ∀ state image, fail₀ state image → fail (cleanup state) image) :
    (impl.ensuring cleanup).Refines spec pre post fail := by
  intro state image related
  have ended := refines state image related
  unfold Method.ensuring
  generalize impl state = one at ended
  generalize spec image = two at ended
  cases ended with
  | ok after => exact .ok (returned _ _ _ _ after)
  | err after => exact .err (failed _ _ after)
  | panic after => exact .panic (failed _ _ after)

theorem onFailure {cleanup : σ → σ} {fail₀ : σ → τ → Prop}
    (refines : impl.Refines spec pre post fail₀)
    (failed : ∀ state image, fail₀ state image → fail (cleanup state) image) :
    (impl.onFailure cleanup).Refines spec pre post fail := by
  intro state image related
  have ended := refines state image related
  unfold Method.onFailure
  generalize impl state = one at ended
  generalize spec image = two at ended
  cases ended with
  | ok after => exact .ok after
  | err after => exact .err (failed _ _ after)
  | panic after => exact .panic (failed _ _ after)

theorem after {inv : σ → τ → Prop} (refines : impl.Refines spec pre (fun _ _ => inv) inv)
    {state : σ} {image : τ}
    (related : pre state image) : Option.Rel inv (impl.after state) (spec.after image) := by
  have ended := refines state image related
  unfold Method.after
  generalize impl state = one at ended
  generalize spec image = two at ended
  cases ended with
  | ok after => exact .some after
  | err after => exact .some after
  | panic _ => exact .none

end Method.Refines

theorem exists_of_rel {inv : σ → τ → Prop} {state : σ} {other : Option τ}
    (related : Option.Rel inv (some state) other) :
    ∃ image, other = some image ∧ inv state image := by
  cases related with
  | some found => exact ⟨_, rfl, found⟩

/-- Steps that keep two processes related keep them related along every run. -/
theorem run_refines {step : σ → ι → Option σ} {step' : τ → ι → Option τ} {inv : σ → τ → Prop}
    (ops : List ι) (steps : ∀ op ∈ ops, ∀ state image, inv state image →
      Option.Rel inv (step state op) (step' image op))
    {start : σ} {view : τ} (initial : inv start view) :
    Option.Rel inv (run step start ops) (run step' view ops) := by
  induction ops generalizing start view with
  | nil => exact .some initial
  | cons op ops ih =>
    have stepped := steps op List.mem_cons_self start view initial
    rw [run_cons, run_cons]
    generalize step start op = next at stepped
    generalize step' view op = next' at stepped
    cases stepped with
    | none => exact .none
    | some related => exact ih (fun op member => steps op (List.mem_cons_of_mem _ member)) related

end SoteriaAegis.Rust
