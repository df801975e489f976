import SoteriaAegis.Rust.Outcome
import Mathlib.Data.List.Infix

/-! Runs of a process: operations one after another, errors included, until one panics.
An invariant is proved for one step and carried along every run; a view of the state that
commutes with the steps carries whole runs over. -/

namespace SoteriaAegis.Rust
variable {ε α σ τ ι : Type}

/-- The receiver once a call has returned, and `none` when it panicked. -/
def Method.after (call : Method σ ε α) (state : σ) : Option σ :=
  match call state with
  | (.panic, _) => none
  | (_, next) => some next

theorem Method.after_eq_some_iff (call : Method σ ε α) (state next : σ) :
    call.after state = some next ↔ (call state).1 ≠ .panic ∧ (call state).2 = next := by
  unfold Method.after
  cases ran : call state with
  | mk result after =>
    cases result with
    | ok value => simp
    | err error => simp
    | panic => simp

theorem Method.after_isSome_iff (call : Method σ ε α) (state : σ) :
    (call.after state).isSome = true ↔ (call state).1 ≠ .panic := by
  unfold Method.after
  cases ran : call state with
  | mk result after =>
    cases result with
    | ok value => simp
    | err error => simp
    | panic => simp

theorem Method.after_cases {call : Method σ ε α} {state next : σ} (done : call.after state = some next) :
    (∃ value, call state = (.ok value, next)) ∨ ∃ error, call state = (.err error, next) := by
  obtain ⟨returned, same⟩ := (Method.after_eq_some_iff call state next).mp done
  cases ran : call state with
  | mk result after =>
    rw [ran] at returned same
    cases result with
    | ok value => exact Or.inl ⟨value, by rw [← same]⟩
    | err error => exact Or.inr ⟨error, by rw [← same]⟩
    | panic => exact absurd rfl returned

def run (step : σ → ι → Option σ) (start : σ) (ops : List ι) : Option σ := ops.foldlM step start

variable (step : σ → ι → Option σ) (start : σ)

@[simp] theorem run_nil : run step start [] = some start := rfl

theorem run_cons (op : ι) (ops : List ι) :
    run step start (op :: ops) = (step start op).bind fun next => run step next ops := rfl

theorem run_append (before after : List ι) :
    run step start (before ++ after) = (run step start before).bind fun middle => run step middle after :=
  List.foldlM_append ..

theorem run_snoc (before : List ι) (op : ι) :
    run step start (before ++ [op]) = (run step start before).bind fun middle => step middle op := by
  rw [run_append]
  congr 1
  funext middle
  rw [run_cons]
  exact Option.bind_fun_some _

theorem run_total {step : σ → ι → Option σ} (steps : ∀ state op, ∃ next, step state op = some next) (start : σ)
    (ops : List ι) : ∃ final, run step start ops = some final := by
  induction ops generalizing start with
  | nil => exact ⟨start, rfl⟩
  | cons op ops ih =>
    obtain ⟨next, stepped⟩ := steps start op
    rw [run_cons, stepped]
    exact ih next

/-- `state` is reached by the run, at its end or on the way. -/
def Visits (ops : List ι) (state : σ) : Prop := ∃ before, before <+: ops ∧ run step start before = some state

/-- The run comes to `state` and goes on with `op`. -/
def Takes (ops : List ι) (state : σ) (op : ι) : Prop :=
  ∃ before, before ++ [op] <+: ops ∧ run step start before = some state

variable {step start}

theorem Visits.last {ops : List ι} {final : σ} (ran : run step start ops = some final) :
    Visits step start ops final := ⟨ops, List.prefix_rfl, ran⟩

theorem Takes.visits {ops : List ι} {state : σ} {op : ι} (taken : Takes step start ops state op) :
    Visits step start ops state := by
  obtain ⟨before, included, ran⟩ := taken
  exact ⟨before, (List.prefix_append before [op]).trans included, ran⟩

theorem Takes.mem {ops : List ι} {state : σ} {op : ι} (taken : Takes step start ops state op) : op ∈ ops := by
  obtain ⟨before, included, _⟩ := taken
  exact included.subset (List.mem_append_right _ (List.mem_singleton_self op))

theorem Takes.next {ops : List ι} {state next : σ} {op : ι} (taken : Takes step start ops state op)
    (stepped : step state op = some next) : Visits step start ops next := by
  obtain ⟨before, included, ran⟩ := taken
  exact ⟨before ++ [op], included, by rw [run_snoc, ran]; exact stepped⟩

/-- A test made at the end of every initial part of a run is a test of the states reached. -/
theorem Visits.passes {ops : List ι} {check : σ → Bool}
    (passed : ops.inits.all (fun before => (run step start before).all check) = true) {state : σ}
    (visited : Visits step start ops state) : check state = true := by
  obtain ⟨before, included, ran⟩ := visited
  have here := List.all_eq_true.mp passed before (List.mem_inits before ops |>.mpr included)
  rw [ran] at here
  exact here

/-- Induction along a run, each step knowing the state it is taken in. -/
theorem visits_induction {ops : List ι} (Inv : σ → Prop) (initial : Inv start)
    (keeps : ∀ state op next, Takes step start ops state op → Inv state → step state op = some next → Inv next)
    {state : σ} (visited : Visits step start ops state) : Inv state := by
  obtain ⟨before, included, ran⟩ := visited
  induction before using List.reverseRecOn generalizing state with
  | nil =>
    cases ran
    exact initial
  | append_singleton before op ih =>
    rw [run_snoc] at ran
    obtain ⟨middle, ranBefore, stepped⟩ := Option.bind_eq_some_iff.mp ran
    have reached := ih ((List.prefix_append before [op]).trans included) ranBefore
    exact keeps middle op state ⟨before, included, ranBefore⟩ reached stepped

/-- What every step preserves holds at the end of every run. -/
theorem run_invariant (Inv : σ → Prop)
    (keeps : ∀ state op next, Inv state → step state op = some next → Inv next) {ops : List ι} {final : σ}
    (initial : Inv start) (ran : run step start ops = some final) : Inv final :=
  visits_induction Inv initial (fun state op next _ => keeps state op next) (Visits.last ran)

theorem run_map {view : σ → τ} {viewStep : τ → ι → Option τ}
    (commutes : ∀ state op, (step state op).map view = viewStep (view state) op) (ops : List ι) :
    (run step start ops).map view = run viewStep (view start) ops := by
  induction ops generalizing start with
  | nil => rfl
  | cons op ops ih =>
    rw [run_cons, run_cons, ← commutes]
    cases step start op with
    | none => rfl
    | some next => exact ih

end SoteriaAegis.Rust
