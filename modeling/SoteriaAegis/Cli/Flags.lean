import SoteriaAegis.Cli.Commands

/-! The command line as a text: the words it is made of, and the values that they give the flags. -/

namespace SoteriaAegis.Cli
open Rust

/-- A word of the command line. A flag takes the argument behind it, whatever that looks like. -/
inductive Word where
  | stray (text : Str)
  | flag (key value : Str)
  | dangling (key : Str)
  deriving DecidableEq

/-- The arguments behind the command, read as words from the left. -/
inductive Spells : List Word → List Str → Prop where
  | nil : Spells [] []
  | stray {text : Str} {words : List Word} {others : List Str} (plain : text.head? ≠ some 0x2D)
      (rest : Spells words others) : Spells (.stray text :: words) (text :: others)
  | flag {key value : Str} {words : List Word} {others : List Str} (rest : Spells words others) :
      Spells (.flag key value :: words) ((0x2D :: key) :: value :: others)
  | dangling {key : Str} : Spells [.dangling key] [0x2D :: key]

def Word.setting : Word → Option (Str × Str)
  | stray _ => none
  | flag key value => some (key, value)
  | dangling key => some (key, [])

/-- The values that the words give the flags: the last word for a flag counts. -/
def values (words : List Word) : Args :=
  fun key => (words.filterMap Word.setting).reverse.lookup key

namespace Spells
variable {words others : List Word} {flags : List Str}

theorem unique (spells : Spells words flags) (again : Spells others flags) : words = others := by
  induction spells generalizing others with
  | nil =>
    cases again
    rfl
  | stray plain rest ih =>
    cases again with
    | stray _ more => rw [ih more]
    | flag more => exact absurd rfl plain
    | dangling => exact absurd rfl plain
  | flag rest ih =>
    cases again with
    | stray dashed more => exact absurd rfl dashed
    | flag more => rw [ih more]
  | dangling =>
    cases again with
    | stray dashed more => exact absurd rfl dashed
    | dangling => rfl

end Spells
def settled (args : Args) (words : List Word) : Args := fun key => (values words key).or (args key)

theorem settled_nil (args : Args) : settled args [] = args := by
  funext key
  rfl

theorem settled_cons (args : Args) (word : Word) (words : List Word) :
    settled args (word :: words) = settled (match word.setting with
      | some (key, value) => args.insert key value
      | none => args) words := by
  funext key
  unfold settled values
  cases set : word.setting with
  | none => rw [List.filterMap_cons_none set]
  | some setting =>
    obtain ⟨name, value⟩ := setting
    rw [List.filterMap_cons_some set, List.reverse_cons, List.lookup_append, Option.or_assoc]
    by_cases same : key = name
    · simp [Args.insert, same]
    · simp [Args.insert, same]

theorem parseFlags_spells (args : Args) (flags : List Str) :
    ∃ words, Spells words flags ∧ parseFlags args flags = settled args words := by
  fun_induction parseFlags args flags with
  | case1 args => exact ⟨[], Spells.nil, (settled_nil args).symm⟩
  | case2 args key value others ih =>
    obtain ⟨words, spells, parsed⟩ := ih
    exact ⟨.flag key value :: words, spells.flag, by rw [parsed, settled_cons]; rfl⟩
  | case3 args key =>
    exact ⟨[.dangling key], Spells.dangling, by rw [settled_cons, settled_nil]; rfl⟩
  | case4 args flag others plain ih =>
    obtain ⟨words, spells, parsed⟩ := ih
    refine ⟨.stray flag :: words, Spells.stray ?_ spells, by rw [parsed, settled_cons]; rfl⟩
    intro dashed
    cases flag with
    | nil => cases dashed
    | cons first key =>
      cases dashed
      exact plain key rfl

/-- Every command line has one reading, and a flag has the value that its last word gives it: the
argument behind the flag, whatever it is, or nothing at the end of the line. -/
theorem parseArgs_reads (program command : Str) (flags : List Str) : ∃ words, Spells words flags ∧
    (∀ others, Spells others flags → others = words) ∧
    parseArgs (program :: command :: flags) = .ok (command, values words) := by
  obtain ⟨words, spells, parsed⟩ := parseFlags_spells (fun _ => none) flags
  refine ⟨words, spells, fun others again => again.unique spells, ?_⟩
  have empty : settled (fun _ => none) words = values words := by
    funext key
    exact Option.or_none
  rw [parseArgs, parsed, empty]

end SoteriaAegis.Cli
