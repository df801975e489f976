import SoteriaAegis.Cli.Serving

/-! The program with the single accesses that it makes to the system. `fs::read` and `fs::write` are
loops of calls that take what the system gives them: a call can be interrupted or fail, and a file
is truncated before it is written. Arguments must be Unicode, and what is printed must be taken.
Where the system answers at once and in full, this is the program of `Cli.Commands`. -/

namespace SoteriaAegis.Cli
open Rust Crypto Slots Vault Access

inductive Answer where
  | took (count : Nat)
  | interrupted
  | failed (error : Str)
  deriving DecidableEq

/-- The answers to one process, those to the calls on each of its files in their order. Behind the
last one listed, a call takes all that is left. -/
structure Answers where
  vault : List Answer
  input : List Answer
  output : List Answer
  stdout : Bool
  stderr : Bool

def Answers.calm : Answers := ⟨[], [], [], true, true⟩

/-- The bytes stored in a file from an offset on, with zeros before them where it is shorter. -/
def splice (content : List UInt8) (offset : Nat) (chunk : List UInt8) : List UInt8 :=
  content.take offset ++ List.replicate (offset - content.length) 0 ++ chunk ++
    content.drop (offset + chunk.length)

def Disk.writeAt (disk : Disk) (path : Str) (offset : Nat) (chunk : List UInt8) : Disk :=
  match disk.files path with
  | .ok content => disk.write path (splice content offset chunk)
  | .error _ => disk

/-- `read_to_end`, with `buf` read so far. A call yields some byte while there is one. -/
def readToEnd (path : Str) (buf : List UInt8) : List Answer → Program Disk Failure (List UInt8)
  | [] => .access id fun disk =>
    match disk.files path with
    | .ok content => .done (.ok (buf ++ content.drop buf.length))
    | .error error => .done (.err (.cannotRead path error))
  | .took count :: answers => .access id fun disk =>
    match disk.files path with
    | .ok content =>
      if content.length ≤ buf.length then .done (.ok buf)
      else readToEnd path (buf ++ (content.drop buf.length).take (max count 1)) answers
    | .error error => .done (.err (.cannotRead path error))
  | .interrupted :: answers => .access id fun _ => readToEnd path buf answers
  | .failed error :: _ => .access id fun _ => .done (.err (.cannotRead path error))

def fsRead (path : Str) (answers : List Answer) : Program Disk Failure (List UInt8) := do
  let _ ← .atomic (readFile path)
  readToEnd path [] answers

def WRITE_ZERO : Str := ascii "failed to write whole buffer"

def writeAll (path : Str) (offset : Nat) (buf : List UInt8) :
    List Answer → Program Disk Failure Unit
  | [] =>
    if buf.isEmpty then .done (.ok ())
    else .access (·.writeAt path offset buf) fun _ => .done (.ok ())
  | answer :: answers =>
    if buf.isEmpty then .done (.ok ())
    else match answer with
      | .took 0 => .access id fun _ => .done (.err (.cannotWrite path WRITE_ZERO))
      | .took (count + 1) => .access (·.writeAt path offset (buf.take (count + 1))) fun _ =>
        writeAll path (offset + (buf.take (count + 1)).length) (buf.drop (count + 1)) answers
      | .interrupted => .access id fun _ => writeAll path offset buf answers
      | .failed error => .access id fun _ => .done (.err (.cannotWrite path error))

/-- The file is created or truncated, and then filled. -/
def fsWrite (path : Str) (answers : List Answer) (bytes : List UInt8) :
    Program Disk Failure Unit := do
  .atomic (writeFile path [])
  writeAll path 0 bytes answers

variable (crates : Crates)

def openVaultTask (answers : Answers) (file pass : Str) : Program Disk Failure AegisVault := do
  let buf ← fsRead file answers.vault
  .done (heldVault crates pass buf)

def serveTask (draws : Draws) (answers : Answers) : Request Str Str → Task
  | .create pass out => do
    let bytes ← .done (initBytes crates draws pass)
    fsWrite out answers.output bytes
  | .enroll pass newp file => do
    let v ← openVaultTask crates answers file pass
    let bytes ← .done (addBytes crates draws newp v)
    fsWrite file answers.output bytes
  | .wrap pass file inp out => do
    let v ← openVaultTask crates answers file pass
    let data ← fsRead inp answers.input
    let bytes ← .done (sealBytes crates draws v data)
    fsWrite out answers.output bytes
  | .unwrap pass file inp out => do
    let v ← openVaultTask crates answers file pass
    let blob ← fsRead inp answers.input
    let bytes ← .done (openBytes crates v blob)
    fsWrite out answers.output bytes
  | .check pass file => do
    let v ← openVaultTask crates answers file pass
    .done (verdict crates v)

def isUnicode (arg : Str) : Bool := ByteArray.validateUTF8 ⟨arg.toArray⟩

def envArgs (argv : List Str) : Outcome Failure (List Str) :=
  if argv.all isUnicode then .ok argv else .panic

def workTask (draws : Draws) (answers : Answers) (argv : List Str) : Task := do
  let argv ← .done (envArgs argv)
  let (command, args) ← .done (parseArgs argv)
  let wish ← .done (asks command args)
  serveTask crates draws answers wish

/-- `println!` behind a success and `eprintln!` before a failure, which panic when the stream does
not take the text. -/
def Answers.printed (answers : Answers) : Outcome Failure Unit → Outcome Failure Unit
  | .ok () => if answers.stdout then .ok () else .panic
  | .err failure => if answers.stderr then .err failure else .panic
  | .panic => .panic

def process (draws : Draws) (answers : Answers) (argv : List Str) : Task :=
  (workTask crates draws answers argv).conclude answers.printed

theorem Answers.printed_eq_err_iff (answers : Answers) (result : Outcome Failure Unit)
    (failure : Failure) : answers.printed result = .err failure ↔
      result = .err failure ∧ answers.stderr = true := by
  obtain ⟨vault, input, output, stdout, stderr⟩ := answers
  cases result with
  | ok value => cases stdout <;> simp [printed]
  | err found => cases stderr <;> simp [printed]
  | panic => simp [printed]

theorem splice_end (content chunk : List UInt8) :
    splice content content.length chunk = content ++ chunk := by
  rw [splice, List.take_length, Nat.sub_self, List.replicate_zero, List.append_nil,
    List.drop_eq_nil_of_le (Nat.le_add_right _ _), List.append_nil]

theorem Disk.write_write (disk : Disk) (path : Str) (first second : List UInt8) :
    (disk.write path first).write path second = disk.write path second := by
  unfold Disk.write
  congr 1
  funext other
  by_cases same : other = path
  · rw [if_pos same, if_pos same]
  · rw [if_neg same, if_neg same]
    exact if_neg same

theorem Disk.write_held {disk : Disk} {path : Str} {content : List UInt8}
    (holds : disk.files path = .ok content) : disk.write path content = disk := by
  have same : (disk.write path content).files = disk.files := by
    funext other
    by_cases here : other = path
    · rw [here, Disk.write_same, holds]
    · exact Disk.write_other disk here content
  exact congrArg (fun files => Disk.mk files disk.refusals) same

theorem Disk.writeAt_end {disk : Disk} {path : Str} {content : List UInt8}
    (holds : disk.files path = .ok content) (chunk : List UInt8) :
    disk.writeAt path content.length chunk = disk.write path (content ++ chunk) := by
  rw [Disk.writeAt, holds]
  exact congrArg (disk.write path) (splice_end content chunk)

/-- The error that a call of `write` ends the loop with. -/
def Cut (answers : List Answer) (error : Str) : Prop :=
  .failed error ∈ answers ∨ .took 0 ∈ answers ∧ error = WRITE_ZERO

theorem Cut.cons {answers : List Answer} {error : Str} (cut : Cut answers error)
    (answer : Answer) : Cut (answer :: answers) error := by
  rcases cut with failed | ⟨nothing, same⟩
  · exact Or.inl (List.mem_cons_of_mem _ failed)
  · exact Or.inr ⟨List.mem_cons_of_mem _ nothing, same⟩

section
variable {disk : Disk} {path : Str} {content buf : List UInt8}

/-- A file that nobody else touches is read in full, unless a call fails. -/
theorem readToEnd_ends (holds : disk.files path = .ok content) (answers : List Answer)
    (front : buf <+: content) :
    (readToEnd path buf answers).exec disk = (.ok content, disk) ∨
      ∃ error, .failed error ∈ answers ∧
        (readToEnd path buf answers).exec disk = (.err (.cannotRead path error), disk) := by
  induction answers generalizing buf with
  | nil =>
    have whole : buf ++ content.drop buf.length = content := by
      obtain ⟨rest, rfl⟩ := front
      rw [List.drop_left]
    left
    simp only [readToEnd, Program.exec, holds, id, whole]
  | cons answer answers ih =>
    cases answer with
    | took count =>
      simp only [readToEnd, Program.exec, holds, id]
      by_cases finished : content.length ≤ buf.length
      · left
        rw [if_pos finished, front.eq_of_length (Nat.le_antisymm front.length_le finished)]
        rfl
      · rw [if_neg finished]
        have further : buf ++ (content.drop buf.length).take (max count 1) <+: content := by
          obtain ⟨rest, rfl⟩ := front
          rw [List.drop_left]
          exact (List.prefix_append_right_inj buf).mpr (List.take_prefix _ _)
        refine (ih further).imp_right ?_
        rintro ⟨error, failed, ran⟩
        exact ⟨error, List.mem_cons_of_mem _ failed, ran⟩
    | interrupted =>
      refine (ih front).imp_right ?_
      rintro ⟨error, failed, ran⟩
      exact ⟨error, List.mem_cons_of_mem _ failed, ran⟩
    | failed error => exact Or.inr ⟨error, List.mem_cons_self, rfl⟩

theorem fsRead_ends (path : Str) (answers : List Answer) (disk : Disk) :
    (fsRead path answers).exec disk = readFile path disk ∨
      ∃ error, .failed error ∈ answers ∧
        (fsRead path answers).exec disk = (.err (.cannotRead path error), disk) := by
  unfold fsRead
  rw [Program.exec_bind, Program.exec_atomic, Method.bind_apply, readFile, Method.self_bind]
  cases holds : disk.files path with
  | ok content => exact readToEnd_ends holds answers (List.nil_prefix)
  | error error => exact Or.inl rfl

theorem writeAll_nil (path : Str) (offset : Nat) (answers : List Answer) :
    writeAll path offset [] answers = .done (.ok ()) := by
  cases answers with
  | nil => rfl
  | cons answer answers => rfl

theorem writeAll_ends (holds : disk.files path = .ok content) (answers : List Answer)
    (buf : List UInt8) :
    (writeAll path content.length buf answers).exec disk =
        (.ok (), disk.write path (content ++ buf)) ∨
      ∃ error part, Cut answers error ∧ part <+: buf ∧ part ≠ buf ∧
        (writeAll path content.length buf answers).exec disk =
          (.err (.cannotWrite path error), disk.write path (content ++ part)) := by
  induction answers generalizing disk content buf with
  | nil =>
    left
    by_cases nothing : buf = []
    · rw [nothing, writeAll_nil, List.append_nil, Disk.write_held holds]
      rfl
    · rw [writeAll, if_neg (not_congr List.isEmpty_iff |>.mpr nothing)]
      exact congrArg (Prod.mk _) (Disk.writeAt_end holds buf)
  | cons answer answers ih =>
    by_cases nothing : buf = []
    · left
      rw [nothing, writeAll_nil, List.append_nil, Disk.write_held holds]
      rfl
    have filled : ¬buf.isEmpty = true := not_congr List.isEmpty_iff |>.mpr nothing
    have stays : disk = disk.write path (content ++ []) := by
      rw [List.append_nil, Disk.write_held holds]
    cases answer with
    | took count =>
      cases count with
      | zero =>
        refine Or.inr ⟨WRITE_ZERO, [], Or.inr ⟨List.mem_cons_self, rfl⟩, List.nil_prefix,
          Ne.symm nothing, ?_⟩
        rw [writeAll, if_neg filled]
        exact congrArg (Prod.mk _) stays
      | succ count =>
        let chunk := buf.take (count + 1)
        have longer : (disk.write path (content ++ chunk)).files path = .ok (content ++ chunk) :=
          Disk.write_same _ _ _
        have moved : (writeAll path content.length buf (.took (count + 1) :: answers)).exec disk =
            (writeAll path (content ++ chunk).length (buf.drop (count + 1)) answers).exec
              (disk.write path (content ++ chunk)) := by
          rw [writeAll, if_neg filled, List.length_append, ← Disk.writeAt_end holds]
          rfl
        rw [moved]
        rcases ih longer (buf.drop (count + 1)) with whole | ⟨error, part, cut, front, proper, ran⟩
        · left
          rw [whole, Disk.write_write, List.append_assoc, List.take_append_drop]
        · refine Or.inr ⟨error, chunk ++ part, cut.cons _, ?_, ?_, ?_⟩
          · rw [← List.take_append_drop (count + 1) buf]
            exact (List.prefix_append_right_inj chunk).mpr front
          · intro same
            rw [← List.take_append_drop (count + 1) buf] at same
            exact proper (List.append_cancel_left same)
          · rw [ran, Disk.write_write, List.append_assoc]
    | interrupted =>
      rw [writeAll, if_neg filled]
      refine (ih holds buf).imp_right ?_
      rintro ⟨error, part, cut, others⟩
      exact ⟨error, part, cut.cons _, others⟩
    | failed error =>
      refine Or.inr ⟨error, [], Or.inl List.mem_cons_self, List.nil_prefix, Ne.symm nothing, ?_⟩
      rw [writeAll, if_neg filled]
      exact congrArg (Prod.mk _) stays

theorem fsWrite_ends (path : Str) (answers : List Answer) (bytes : List UInt8) (disk : Disk) :
    (fsWrite path answers bytes).exec disk = writeFile path bytes disk ∨
      ∃ error part, Cut answers error ∧ part <+: bytes ∧ part ≠ bytes ∧
        writeFile path bytes disk = (.ok (), disk.write path bytes) ∧
        (fsWrite path answers bytes).exec disk =
          (.err (.cannotWrite path error), disk.write path part) := by
  unfold fsWrite
  rw [Program.exec_bind, Program.exec_atomic, Method.bind_apply, writeFile, writeFile,
    Method.self_bind, Method.self_bind]
  cases disk.refusals path with
  | some error => exact Or.inl rfl
  | none =>
    have filled := writeAll_ends (Disk.write_same disk path []) answers bytes
    simp only [Disk.write_write, List.nil_append] at filled
    refine filled.imp_right ?_
    rintro ⟨error, part, cut, front, proper, ran⟩
    exact ⟨error, part, cut, front, proper, rfl, ran⟩

end

def Unread (answers : Answers) (wish : Request Str Str) (path error : Str) : Prop :=
  vaultOf wish = some path ∧ .failed error ∈ answers.vault ∨
    inputOf wish = some path ∧ .failed error ∈ answers.input

/-- The disk and the end of a request, with these answers and where all is taken at once: the same,
unless a call of `read` fails, or a call of `write` that leaves the file with its front only. -/
inductive Strays (answers : Answers) (wish : Request Str Str) (disk : Disk) :
    Outcome Failure Unit × Disk → Outcome Failure Unit × Disk → Prop where
  | same (ended : Outcome Failure Unit × Disk) : Strays answers wish disk ended ended
  | unread {path error : Str} (ended : Outcome Failure Unit × Disk)
      (unread : Unread answers wish path error) :
      Strays answers wish disk ended (.err (.cannotRead path error), disk)
  | torn {path error : Str} {bytes part : List UInt8} (named : outputOf wish = some path)
      (cut : Cut answers.output error) (front : part <+: bytes) (proper : part ≠ bytes) :
      Strays answers wish disk (.ok (), disk.write path bytes)
        (.err (.cannotWrite path error), disk.write path part)

namespace Strays
variable {answers : Answers} {wish : Request Str Str} {disk : Disk} {α : Type}

theorem lift_bind {result : Outcome Failure α} {next : α → Process Unit} {next' : α → Task}
    (later : ∀ value, result = .ok value →
      Strays answers wish disk (next value disk) ((next' value).exec disk)) :
    Strays answers wish disk ((Method.lift result >>= next) disk)
      ((Program.done result >>= next' : Task).exec disk) := by
  cases result with
  | ok value => exact later value rfl
  | err failure => exact same _
  | panic => exact same _

theorem fsRead_bind {path : Str} {calls : List Answer} {next : List UInt8 → Process Unit}
    {next' : List UInt8 → Task}
    (named : ∀ error, .failed error ∈ calls → Unread answers wish path error)
    (later : ∀ content, Strays answers wish disk (next content disk) ((next' content).exec disk)) :
    Strays answers wish disk ((readFile path >>= next) disk)
      ((fsRead path calls >>= next').exec disk) := by
  have unchanged := readFile_reads path disk
  rw [Program.exec_bind, Method.bind_apply, Method.bind_apply]
  rcases fsRead_ends path calls disk with whole | ⟨error, failed, ran⟩
  · rw [whole]
    cases read : readFile path disk with
    | mk result after =>
      rw [read] at unchanged
      subst unchanged
      cases result with
      | ok content => exact later content
      | err failure => exact same _
      | panic => exact same _
  · rw [ran]
    exact unread _ (named error failed)

theorem fsWrite {path : Str} (named : outputOf wish = some path) (bytes : List UInt8) :
    Strays answers wish disk (writeFile path bytes disk)
      ((Cli.fsWrite path answers.output bytes).exec disk) := by
  rcases fsWrite_ends path answers.output bytes disk with
    whole | ⟨error, part, cut, front, proper, written, ran⟩
  · rw [whole]
    exact same _
  · rw [written, ran]
    exact torn named cut front proper

end Strays

variable {crates}

theorem openVaultTask_bind_strays {answers : Answers} {wish : Request Str Str} {disk : Disk}
    {file pass : Str} {next : AegisVault → Process Unit} {next' : AegisVault → Task}
    (named : vaultOf wish = some file) (later : ∀ v, Strays answers wish disk (next v disk)
      ((next' v).exec disk)) :
    Strays answers wish disk ((openVault crates file pass >>= next) disk)
      ((openVaultTask crates answers file pass >>= next').exec disk) := by
  rw [openVault_eq, Method.bind_assoc, openVaultTask, Program.exec_bind, Program.exec_bind,
    Method.bind_assoc]
  have read : Strays answers wish disk
      ((readFile file >>= fun buf => Method.lift (heldVault crates pass buf) >>= next) disk)
      ((fsRead file answers.vault >>= fun buf =>
        (Program.done (heldVault crates pass buf) >>= next' : Task)).exec disk) :=
    Strays.fsRead_bind (fun error failed => Or.inl ⟨named, failed⟩) fun content =>
      Strays.lift_bind fun v _ => later v
  simpa only [Program.exec_bind] using read

theorem serveTask_strays (crates : Crates) (draws : Draws) (answers : Answers)
    (wish : Request Str Str)
    (disk : Disk) : Strays answers wish disk (serve crates draws wish disk)
      ((serveTask crates draws answers wish).exec disk) := by
  cases wish with
  | create pass out => exact Strays.lift_bind fun bytes _ => Strays.fsWrite rfl bytes
  | enroll pass newp file =>
    apply openVaultTask_bind_strays rfl
    intro v
    exact Strays.lift_bind fun bytes _ => Strays.fsWrite rfl bytes
  | wrap pass file inp out =>
    apply openVaultTask_bind_strays rfl
    intro v
    apply Strays.fsRead_bind fun error failed => Or.inr ⟨rfl, failed⟩
    intro data
    exact Strays.lift_bind fun bytes _ => Strays.fsWrite rfl bytes
  | unwrap pass file inp out =>
    apply openVaultTask_bind_strays rfl
    intro v
    apply Strays.fsRead_bind fun error failed => Or.inr ⟨rfl, failed⟩
    intro blob
    exact Strays.lift_bind fun bytes _ => Strays.fsWrite rfl bytes
  | check pass file =>
    apply openVaultTask_bind_strays rfl
    intro v
    exact Strays.same _

variable {draws : Draws} {answers : Answers} {argv : List Str} {disk : Disk}

theorem parseArgs_ne_panic (argv : List Str) : parseArgs argv ≠ .panic := by
  unfold parseArgs
  split
  · exact Outcome.ok_ne_panic _
  · exact Outcome.err_ne_panic _

theorem process_exec (crates : Crates) (draws : Draws) (answers : Answers) (argv : List Str)
    (disk : Disk) : (process crates draws answers argv).exec disk =
      (answers.printed ((workTask crates draws answers argv).exec disk).1,
        ((workTask crates draws answers argv).exec disk).2) :=
  Program.exec_conclude _ _ _

theorem workTask_of_foreign (foreign : argv.all isUnicode = false) :
    workTask crates draws answers argv = .done .panic := by
  unfold workTask envArgs
  rw [foreign]
  rfl

theorem workTask_of_unicode (unicode : argv.all isUnicode = true) :
    workTask crates draws answers argv = (Program.done (parseArgs argv) >>= fun parsed =>
      Program.done (asks parsed.1 parsed.2) >>= serveTask crates draws answers) := by
  unfold workTask envArgs
  rw [if_pos unicode]
  rfl

theorem workTask_refused (unicode : argv.all isUnicode = true) (none : requestOf argv = none) :
    ∃ failure, workTask crates draws answers argv = .done (.err failure) ∧
      main crates draws argv disk = (.err failure, disk) := by
  rw [workTask_of_unicode unicode]
  unfold requestOf at none
  unfold main
  cases parsed : parseArgs argv with
  | err failure => exact ⟨failure, rfl, rfl⟩
  | panic => exact absurd parsed (parseArgs_ne_panic argv)
  | ok answer =>
    rw [parsed] at none
    cases result : asks answer.1 answer.2 with
    | err failure =>
      refine ⟨failure, ?_, ?_⟩
      · change (Program.done (asks answer.1 answer.2) >>= serveTask crates draws answers : Task) = _
        rw [result]
        rfl
      · change dispatch crates answer.1 answer.2 draws disk = _
        rw [dispatch_eq_serve, result]
        rfl
    | panic => exact absurd result (asks_ne_panic _ _)
    | ok wish =>
      exact absurd (none.symm.trans (asks_eq_ok_iff.mp result)) (Option.some_ne_none wish).symm

theorem workTask_served (unicode : argv.all isUnicode = true) {wish : Request Str Str}
    (asked : requestOf argv = some wish) :
    workTask crates draws answers argv = serveTask crates draws answers wish ∧
      main crates draws argv disk = serve crates draws wish disk := by
  rw [workTask_of_unicode unicode]
  unfold requestOf at asked
  unfold main
  cases parsed : parseArgs argv with
  | err failure =>
    rw [parsed] at asked
    cases asked
  | panic => exact absurd parsed (parseArgs_ne_panic argv)
  | ok answer =>
    rw [parsed] at asked
    have result := asks_eq_ok_iff.mpr asked
    constructor
    · change (Program.done (asks answer.1 answer.2) >>= serveTask crates draws answers : Task) = _
      rw [result]
      rfl
    · change dispatch crates answer.1 answer.2 draws disk = _
      rw [dispatch_eq_serve, result]
      rfl

theorem workTask_strays (unicode : argv.all isUnicode = true) {wish : Request Str Str}
    (asked : requestOf argv = some wish) :
    Strays answers wish disk (main crates draws argv disk)
      ((workTask crates draws answers argv).exec disk) := by
  obtain ⟨served, same⟩ := @workTask_served crates draws answers argv disk unicode wish asked
  rw [served, same]
  exact serveTask_strays crates draws answers wish disk

/-- Where nothing fails, a process does what the program of `Cli.Commands` does. -/
theorem process_calm (unicode : argv.all isUnicode = true) :
    (process crates draws .calm argv).exec = main crates draws argv := by
  funext disk
  have printed : ∀ result, Answers.calm.printed result = result := by
    intro result
    cases result with
    | ok value => rfl
    | err failure => rfl
    | panic => rfl
  rw [process_exec, printed]
  change (workTask crates draws .calm argv).exec disk = _
  cases asked : requestOf argv with
  | none =>
    obtain ⟨failure, refused, same⟩ := workTask_refused unicode asked
    rw [refused, same]
    rfl
  | some wish =>
    have strays := @workTask_strays crates draws .calm argv disk unicode wish asked
    generalize main crates draws argv disk = ended at strays
    generalize (workTask crates draws .calm argv).exec disk = found at strays
    cases strays with
    | same => rfl
    | unread _ failed =>
      rcases failed with ⟨_, impossible⟩ | ⟨_, impossible⟩
      · cases impossible
      · cases impossible
    | torn _ cut _ _ =>
      rcases cut with impossible | ⟨impossible, _⟩
      · cases impossible
      · cases impossible

end SoteriaAegis.Cli
