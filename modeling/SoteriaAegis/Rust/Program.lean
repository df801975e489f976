import SoteriaAegis.Rust.Run
import Mathlib.Logic.Function.Basic

/-! Programs that share a state and take turns, one access at a time. Between two accesses of a
program the others may have changed everything. A property of the state that each program keeps
by itself, whatever it has read before, is kept by all of them in any order. A program that may
rely on the others to leave a part of the state alone can guarantee more about that part. -/

namespace SoteriaAegis.Rust
variable {σ ε α β ι : Type}

/-- A program is done, or makes an access: it changes the state and goes on with what it saw. -/
inductive Program (σ ε α : Type) where
  | done (result : Outcome ε α)
  | access (change : σ → σ) (next : σ → Program σ ε α)

namespace Program

protected def bind (next : α → Program σ ε β) : Program σ ε α → Program σ ε β
  | done (.ok value) => next value
  | done (.err error) => done (.err error)
  | done .panic => done .panic
  | access change later => access change fun seen => (later seen).bind next

instance : Monad (Program σ ε) where
  pure value := done (.ok value)
  bind first next := first.bind next

def atomic (call : Method σ ε α) : Program σ ε α :=
  access (fun state => (call state).2) fun state => done (call state).1

def exec : Program σ ε α → Method σ ε α
  | done result => fun state => (result, state)
  | access change next => fun state => (next state).exec (change state)

@[simp] theorem exec_done (result : Outcome ε α) (state : σ) :
    (done result : Program σ ε α).exec state = (result, state) := rfl

@[simp] theorem exec_atomic (call : Method σ ε α) : (atomic call).exec = call := rfl

theorem exec_bind (first : Program σ ε α) (next : α → Program σ ε β) :
    (first >>= next).exec = first.exec >>= fun value => (next value).exec := by
  funext state
  rw [Method.bind_apply]
  induction first generalizing state with
  | done result =>
    cases result with
    | ok value => rfl
    | err error => rfl
    | panic => rfl
  | access change later ih => exact ih state (change state)

def ended : Program σ ε α → Option (Outcome ε α)
  | done result => some result
  | access _ _ => none

/-- Each access keeps the property, and a value that is returned is as claimed. An access relies
on the property alone: what was true before it may be true no longer. -/
def Satisfies (keep : σ → Prop) (claim : α → Prop) : Program σ ε α → Prop
  | done (.ok value) => claim value
  | done _ => True
  | access change next => ∀ state, keep state → keep (change state) ∧
    (next state).Satisfies keep claim

section
variable {keep : σ → Prop} {claim claim' : α → Prop}

theorem satisfies_done {result : Outcome ε α} (claims : ∀ value, result = .ok value → claim value) :
    (done result : Program σ ε α).Satisfies keep claim := by
  cases result with
  | ok value => exact claims value rfl
  | err error => trivial
  | panic => trivial

theorem Satisfies.bind {next : α → Program σ ε β} {last : β → Prop} {first : Program σ ε α}
    (starts : first.Satisfies keep claim)
    (others : ∀ value, claim value → (next value).Satisfies keep last) :
    (first >>= next).Satisfies keep last := by
  induction first with
  | done result =>
    cases result with
    | ok value => exact others value starts
    | err error => trivial
    | panic => trivial
  | access change later ih =>
    intro state kept
    obtain ⟨changed, rest⟩ := starts state kept
    exact ⟨changed, ih state rest⟩

theorem satisfies_atomic {call : Method σ ε α} (steps : ∀ state, keep state →
    keep (call state).2 ∧ ∀ value, (call state).1 = .ok value → claim value) :
    (atomic call).Satisfies keep claim := by
  intro state kept
  obtain ⟨changed, claimed⟩ := steps state kept
  exact ⟨changed, satisfies_done claimed⟩

theorem satisfies_reads {call : Method σ ε α} (reads : call.Reads)
    (claims : ∀ state value, keep state → call state = (.ok value, state) → claim value) :
    (atomic call).Satisfies keep claim := by
  apply satisfies_atomic
  intro state kept
  refine ⟨(reads state).symm ▸ kept, fun value returned => ?_⟩
  exact claims state value kept (reads.eq_of_fst returned)

end

def conclude (ending : Outcome ε α → Outcome ε β) : Program σ ε α → Program σ ε β
  | done result => done (ending result)
  | access change next => access change fun seen => (next seen).conclude ending

theorem exec_conclude (ending : Outcome ε α → Outcome ε β) (program : Program σ ε α) (state : σ) :
    (program.conclude ending).exec state =
      (ending (program.exec state).1, (program.exec state).2) := by
  induction program generalizing state with
  | done result => rfl
  | access change later ih => exact ih state (change state)

/-- Each access changes the state within `moves`, whatever it finds there. -/
def Does (moves : σ → σ → Prop) : Program σ ε α → Prop
  | done _ => True
  | access change next => ∀ state, moves state (change state) ∧ (next state).Does moves

/-- The program has worked on the state, and the others change it within `rely`. It then finds
`keep` at every access and behind the last one, where `claim` holds of its result as well. -/
def Guarantees (rely : σ → σ → Prop) (keep : σ → Prop) (claim : Outcome ε α → σ → Prop) :
    Program σ ε α → σ → Prop
  | done result => fun state => ∀ met, rely state met → keep met ∧ claim result met
  | access change next => fun state =>
    ∀ met, rely state met → keep met ∧ (next met).Guarantees rely keep claim (change met)

section
variable {moves rely : σ → σ → Prop} {keep : σ → Prop} {claim : Outcome ε α → σ → Prop}
  {program : Program σ ε α} {state met : σ}

theorem Does.imp {moves' : σ → σ → Prop} (does : program.Does moves)
    (implies : ∀ state after, moves state after → moves' state after) : program.Does moves' := by
  induction program with
  | done result => trivial
  | access change later ih =>
    intro state
    obtain ⟨moved, rest⟩ := does state
    exact ⟨implies _ _ moved, ih state rest⟩

theorem Does.bind {first : Program σ ε α} {next : α → Program σ ε β} (does : first.Does moves)
    (others : ∀ value, (next value).Does moves) : (first >>= next).Does moves := by
  induction first with
  | done result =>
    cases result with
    | ok value => exact others value
    | err error => trivial
    | panic => trivial
  | access change later ih =>
    intro state
    obtain ⟨moved, rest⟩ := does state
    exact ⟨moved, ih state rest⟩

theorem Does.conclude (does : program.Does moves) (ending : Outcome ε α → Outcome ε β) :
    (program.conclude ending).Does moves := by
  induction program with
  | done result => trivial
  | access change later ih =>
    intro state
    obtain ⟨moved, rest⟩ := does state
    exact ⟨moved, ih state rest⟩

theorem Guarantees.imp {claim' : Outcome ε α → σ → Prop}
    (guarantees : program.Guarantees rely keep claim state)
    (implies : ∀ result state, claim result state → claim' result state) :
    program.Guarantees rely keep claim' state := by
  induction program generalizing state with
  | done result => exact fun met within => (guarantees met within).imp_right (implies _ _)
  | access change later ih =>
    intro met within
    obtain ⟨kept, rest⟩ := guarantees met within
    exact ⟨kept, ih met rest⟩

/-- The claim of the first program is what the second one starts from, or about a failure. -/
theorem Guarantees.bind {next : α → Program σ ε β} {last : Outcome ε β → σ → Prop}
    (refl : ∀ state, rely state state) (guarantees : program.Guarantees rely keep claim state)
    (later : ∀ value state, claim (.ok value) state →
      (next value).Guarantees rely keep last state)
    (failed : ∀ error state, claim (.err error) state → last (.err error) state)
    (panicked : ∀ state, claim .panic state → last .panic state) :
    (program >>= next).Guarantees rely keep last state := by
  induction program generalizing state with
  | done result =>
    cases result with
    | ok value => exact later value state (guarantees state (refl state)).2
    | err error => exact fun met within => (guarantees met within).imp_right (failed error met)
    | panic => exact fun met within => (guarantees met within).imp_right (panicked met)
  | access change seen ih =>
    intro met within
    obtain ⟨kept, rest⟩ := guarantees met within
    exact ⟨kept, ih met rest⟩

theorem Guarantees.conclude {ending : Outcome ε α → Outcome ε β} {last : Outcome ε β → σ → Prop}
    (guarantees : program.Guarantees rely keep (fun result => last (ending result)) state) :
    (program.conclude ending).Guarantees rely keep last state := by
  induction program generalizing state with
  | done result => exact guarantees
  | access change later ih =>
    intro met within
    obtain ⟨kept, rest⟩ := guarantees met within
    exact ⟨kept, ih met rest⟩

/-- A program whose own accesses are no more than what it relies on keeps what these keep. -/
theorem Does.guarantees (does : program.Does rely) (stable : ∀ state met, keep state →
    rely state met → keep met) (kept : keep state) :
    program.Guarantees rely keep (fun _ => keep) state := by
  induction program generalizing state with
  | done result => exact fun met within => ⟨stable _ _ kept within, stable _ _ kept within⟩
  | access change later ih =>
    intro met within
    obtain ⟨moved, rest⟩ := does met
    have here := stable _ _ kept within
    exact ⟨here, ih met rest (stable _ _ here moved)⟩

end
end Program

/-- The state that the programs share, and what is left of each. -/
structure Pool (σ ε α ι : Type) where
  shared : σ
  programs : ι → Program σ ε α

namespace Pool
variable [DecidableEq ι]

def move (pool : Pool σ ε α ι) (i : ι) (shared : σ) (left : Program σ ε α) : Pool σ ε α ι :=
  ⟨shared, Function.update pool.programs i left⟩

@[simp] theorem move_shared (pool : Pool σ ε α ι) (i : ι) (shared : σ) (left : Program σ ε α) :
    (pool.move i shared left).shared = shared := rfl

@[simp] theorem move_same (pool : Pool σ ε α ι) (i : ι) (shared : σ) (left : Program σ ε α) :
    (pool.move i shared left).programs i = left := Function.update_self ..

theorem move_other (pool : Pool σ ε α ι) {i j : ι} (differ : j ≠ i) (shared : σ)
    (left : Program σ ε α) :
    (pool.move i shared left).programs j = pool.programs j := Function.update_of_ne differ ..

/-- The program picked makes its next access, if it is not done. -/
def step (pool : Pool σ ε α ι) (i : ι) : Option (Pool σ ε α ι) :=
  match pool.programs i with
  | .done _ => some pool
  | .access change next => some (pool.move i (change pool.shared) (next pool.shared))

structure Kept (keep : σ → Prop) (claim : ι → α → Prop) (pool : Pool σ ε α ι) : Prop where
  shared : keep pool.shared
  programs : ∀ i, (pool.programs i).Satisfies keep (claim i)

variable {keep : σ → Prop} {claim : ι → α → Prop} {pool next start : Pool σ ε α ι} {i : ι}

theorem step_done {result : Outcome ε α} (ended : pool.programs i = .done result) :
    pool.step i = some pool := by
  rw [step, ended]

theorem step_access {change : σ → σ} {later : σ → Program σ ε α}
    (left : pool.programs i = .access change later) :
    pool.step i = some (pool.move i (change pool.shared) (later pool.shared)) := by
  rw [step, left]

theorem step_total (pool : Pool σ ε α ι) (i : ι) : ∃ next, pool.step i = some next := by
  cases left : pool.programs i with
  | done result => exact ⟨pool, step_done left⟩
  | access change later => exact ⟨_, step_access left⟩

theorem Kept.step (kept : Kept keep claim pool) (stepped : pool.step i = some next) :
    Kept keep claim next := by
  have mine := kept.programs i
  cases left : pool.programs i with
  | done result =>
    rw [step_done left] at stepped
    cases stepped
    exact kept
  | access change later =>
    rw [step_access left] at stepped
    cases stepped
    rw [left] at mine
    obtain ⟨changed, rest⟩ := mine pool.shared kept.shared
    refine ⟨changed, fun j => ?_⟩
    by_cases same : j = i
    · rw [same, move_same]
      exact rest
    · rw [move_other pool same]
      exact kept.programs j

/-- Whatever the order of the accesses, the property holds in every state on the way. -/
theorem Kept.visited (kept : Kept keep claim start) {schedule : List ι}
    (visits : Visits Pool.step start schedule pool) :
    Kept keep claim pool :=
  visits_induction (Kept keep claim) kept (fun _ _ _ _ held stepped => held.step stepped) visits

/-- A program that is picked until it is done, and no other, does what it does alone. -/
theorem run_alone (start : Pool σ ε α ι) (i : ι) : ∃ turns final,
    run Pool.step start (List.replicate turns i) = some final ∧
    final.shared = ((start.programs i).exec start.shared).2 ∧
    final.programs i = .done ((start.programs i).exec start.shared).1 := by
  generalize left : start.programs i = program
  induction program generalizing start with
  | done result => exact ⟨0, start, rfl, rfl, left⟩
  | access change later ih =>
    obtain ⟨turns, final, ran, shared, ended⟩ :=
      ih start.shared (start.move i (change start.shared) (later start.shared)) (move_same ..)
    refine ⟨turns + 1, final, ?_, shared, ended⟩
    rw [List.replicate_succ, run_cons, step_access left]
    exact ran

end Pool
end SoteriaAegis.Rust
