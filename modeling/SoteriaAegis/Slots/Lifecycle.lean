import SoteriaAegis.Slots.Members
import SoteriaAegis.Slots.WellFormed

/-! The whole life of a table, from its first slot on: slots are added and revoked, and the
table is written out and read back. A slot stays where it was made, and revoking it is all
that can happen to it. -/

namespace SoteriaAegis.Slots
open Rust Crypto

inductive LifeOp where
  | call (tableCall : TableCall)
  | reload

variable (crates : Crates)

/-- A table that cannot be read back stays in memory. -/
def LifeOp.step (table : KeySlotTable) : LifeOp → Option KeySlotTable
  | call tableCall => tableCall.step crates table
  | reload =>
    match KeySlotTable.fromBytes crates (table.toBytes crates) table.headerSalt with
    | .ok read => some read
    | .err _ => some table
    | .panic => none

/-- Not too many slots, one of them enabled, and no ciphertext in the others. -/
structure Sound (table : KeySlotTable) : Prop where
  few : table.slots.length ≤ MAX_SLOTS
  manned : 0 < table.enabledCount
  wiped : ∀ slot ∈ table.slots, slot.isEnabled = false → slot.ct = U8Array.zeros CT_LEN

variable {crates} {table next start : KeySlotTable}

namespace Sound

theorem of_newInitial {master : U8Array MASTER_LEN} {passphrase : List UInt8} {draws : TableDraws}
    (made : KeySlotTable.newInitial crates master passphrase draws = .ok table) : Sound table := by
  refine ⟨(WellFormed.of_newInitial crates made).few, KeySlotTable.newInitial_manned made, ?_⟩
  obtain ⟨slot, created, rfl⟩ := (KeySlotTable.newInitial_eq_ok_iff crates _ _ _ _).mp made
  intro other member disabled
  rw [List.mem_singleton.mp member, KeySlot.create_enabled crates created] at disabled
  cases disabled

theorem call (sound : Sound table) {tableCall : TableCall} (stepped : tableCall.step crates table = some next) :
    Sound next := by
  have length := KeySlotTable.step_length crates stepped
  refine ⟨length.trans (Nat.max_le.mpr ⟨sound.few, Nat.le_refl _⟩), ?_, ?_⟩
  · rcases tableCall.step_cases crates stepped with
      rfl | ⟨_, _, _, slot, _, _, _, rfl⟩ | ⟨idx, slot, _, several, _, _, rfl⟩
    · exact sound.manned
    · exact KeySlotTable.append_manned sound.manned slot
    · exact KeySlotTable.revoke_manned several idx
  · intro other member disabled
    rcases tableCall.step_cases crates stepped with
      rfl | ⟨_, _, _, slot, _, _, created, rfl⟩ | ⟨idx, slot, _, _, _, _, rfl⟩
    · exact sound.wiped other member disabled
    · rcases List.mem_append.mp member with old | new
      · exact sound.wiped other old disabled
      · rw [List.mem_singleton.mp new, KeySlot.create_enabled crates created] at disabled
        cases disabled
    · obtain ⟨before, old, same⟩ := mem_modify_revoked member
      rcases same with rfl | rfl
      · exact sound.wiped other old disabled
      · rfl

theorem reload (sound : Sound table) :
    KeySlotTable.fromBytes crates (table.toBytes crates) table.headerSalt = .ok table :=
  KeySlotTable.fromBytes_toBytes crates table (KeySlotTable.countable sound.few)

theorem step_reload (sound : Sound table) : LifeOp.reload.step crates table = some table := by
  simp only [LifeOp.step, sound.reload]

theorem step (sound : Sound table) {op : LifeOp} (stepped : op.step crates table = some next) : Sound next := by
  cases op with
  | call tableCall => exact sound.call stepped
  | reload =>
    rw [sound.step_reload] at stepped
    cases stepped
    exact sound

theorem run (sound : Sound start) {ops : List LifeOp} (ran : run (LifeOp.step crates) start ops = some table) :
    Sound table :=
  run_invariant Sound (fun _ _ _ sound stepped => sound.step stepped) sound ran

end Sound

theorem LifeOp.step_frame (sound : Sound table) {op : LifeOp} (stepped : op.step crates table = some next) :
    next.headerSalt = table.headerSalt ∧ next.verifier = table.verifier ∧
      ∀ idx slot, table.slots[idx]? = some slot → next.slots[idx]? = some slot ∨
        op = .call (.revokeSlot idx) ∧ slot.isEnabled = true ∧ next.slots[idx]? = some slot.revoked := by
  cases op with
  | call tableCall =>
    rcases tableCall.step_cases crates stepped with
      rfl | ⟨_, _, _, added, _, _, _, rfl⟩ | ⟨named, revoked, rfl, _, at_named, enabled, rfl⟩
    · exact ⟨rfl, rfl, fun idx slot found => Or.inl found⟩
    · refine ⟨rfl, rfl, fun idx slot found => Or.inl ?_⟩
      rw [List.getElem?_append_left (List.getElem?_eq_some_iff.mp found).1]
      exact found
    · refine ⟨rfl, rfl, fun idx slot found => ?_⟩
      simp only [List.getElem?_modify]
      by_cases same : named = idx
      · subst same
        rw [found] at at_named
        cases at_named
        exact Or.inr ⟨rfl, enabled, by simp [found]⟩
      · exact Or.inl (by simp [same, found])
  | reload =>
    rw [sound.step_reload] at stepped
    cases stepped
    exact ⟨rfl, rfl, fun idx slot found => Or.inl found⟩

/-- Along `ops` the index stands for `slot`, and from the `turn`th call on, which revokes it,
for the slot revoked. -/
def Denotes (crates : Crates) (table : KeySlotTable) (ops : List LifeOp) (idx : Nat) (slot : KeySlot) : Prop :=
  ∃ turn, (turn < ops.length → ops[turn]? = some (.call (.revokeSlot idx)) ∧ slot.isEnabled = true) ∧
    ∀ before, before <+: ops → ∀ state, run (LifeOp.step crates) table before = some state →
      state.slots[idx]? = some (if before.length ≤ turn then slot else slot.revoked)

namespace Denotes
variable {ops : List LifeOp} {idx : Nat} {slot : KeySlot}

theorem of_disabled (denotes : Denotes crates table ops idx slot) (disabled : slot.isEnabled = false)
    {before : List LifeOp} (included : before <+: ops) {state : KeySlotTable}
    (ran : Rust.run (LifeOp.step crates) table before = some state) : state.slots[idx]? = some slot := by
  obtain ⟨turn, named, follows⟩ := denotes
  have late : before.length ≤ turn := by
    by_contra early
    have inside : turn < ops.length := Nat.lt_of_lt_of_le (Nat.lt_of_not_le early) included.length_le
    have enabled := (named inside).2
    rw [disabled] at enabled
    cases enabled
  rw [follows before included state ran, if_pos late]

theorem of_found (sound : Sound table) (found : table.slots[idx]? = some slot) (ops : List LifeOp) :
    Denotes crates table ops idx slot := by
  induction ops generalizing table slot with
  | nil =>
    refine ⟨0, fun impossible => absurd impossible (Nat.not_lt_zero 0), fun before included state ran => ?_⟩
    rw [List.prefix_nil.mp included] at ran ⊢
    cases ran
    exact found
  | cons op ops ih =>
    cases stepped : op.step crates table with
    | none =>
      refine ⟨(op :: ops).length, fun impossible => absurd impossible (Nat.lt_irrefl _), ?_⟩
      intro before included state ran
      rw [if_pos included.length_le]
      rcases List.prefix_cons_iff.mp included with rfl | ⟨others, rfl, _⟩
      · cases ran
        exact found
      · rw [run_cons, stepped] at ran
        cases ran
    | some next =>
      have soundNext := sound.step stepped
      rcases (LifeOp.step_frame sound stepped).2.2 idx slot found with kept | ⟨revokes, enabled, revoked⟩
      · obtain ⟨turn, named, follows⟩ := ih soundNext kept
        refine ⟨turn + 1, fun inside => named (Nat.lt_of_succ_lt_succ inside), ?_⟩
        intro before included state ran
        rcases List.prefix_cons_iff.mp included with rfl | ⟨others, rfl, rest⟩
        · cases ran
          exact found
        · rw [run_cons, stepped, Option.bind_some] at ran
          simp only [List.length_cons, Nat.add_le_add_iff_right]
          exact follows others rest state ran
      · refine ⟨0, fun _ => ⟨congrArg some revokes, enabled⟩, ?_⟩
        intro before included state ran
        rcases List.prefix_cons_iff.mp included with rfl | ⟨others, rfl, rest⟩
        · cases ran
          exact found
        · rw [run_cons, stepped, Option.bind_some] at ran
          rw [List.length_cons, if_neg (Nat.not_succ_le_zero _)]
          exact (ih soundNext revoked).of_disabled slot.revoked_disabled rest ran

end Denotes

/-- Nothing but the flags and the ciphertext of a slot ever changes. -/
theorem Sound.run_frame (sound : Sound start) {ops : List LifeOp}
    (ran : Rust.run (LifeOp.step crates) start ops = some table) :
    table.headerSalt = start.headerSalt ∧ table.verifier = start.verifier ∧
      ∀ (idx : Nat) (slot : KeySlot), start.slots[idx]? = some slot → ∃ last : KeySlot, table.slots[idx]? = some last ∧
        slot = { last with flags := slot.flags, ct := slot.ct } := by
  have framed : Sound table ∧ table.headerSalt = start.headerSalt ∧ table.verifier = start.verifier := by
    refine run_invariant (fun state => Sound state ∧ state.headerSalt = start.headerSalt ∧
      state.verifier = start.verifier) ?_ ⟨sound, rfl, rfl⟩ ran
    intro state op next ⟨soundHere, salt, verifier⟩ stepped
    obtain ⟨sameSalt, sameVerifier, _⟩ := LifeOp.step_frame soundHere stepped
    exact ⟨soundHere.step stepped, sameSalt.trans salt, sameVerifier.trans verifier⟩
  refine ⟨framed.2.1, framed.2.2, fun idx slot found => ?_⟩
  obtain ⟨turn, _, follows⟩ := Denotes.of_found sound found ops
  refine ⟨_, follows ops List.prefix_rfl table ran, ?_⟩
  split
  · rfl
  · rfl

/-- What holds of a table at every point of its life, and of what comes after that point:
the limits, the wiped slots, the constant header, and each index standing for its slot. -/
theorem life_sound (crates : Crates) {master : U8Array MASTER_LEN} {passphrase : List UInt8} {draws : TableDraws}
    {start table : KeySlotTable} (made : KeySlotTable.newInitial crates master passphrase draws = .ok start)
    {ops : List LifeOp} (ran : run (LifeOp.step crates) start ops = some table) :
    (1 ≤ table.enabledCount ∧ table.enabledCount ≤ table.slots.length ∧ table.slots.length ≤ MAX_SLOTS) ∧
      (∀ slot ∈ table.slots, slot.isEnabled = false → slot.ct = U8Array.zeros CT_LEN) ∧
      (table.headerSalt = start.headerSalt ∧ table.verifier = start.verifier) ∧
      KeySlotTable.fromBytes crates (table.toBytes crates) table.headerSalt = .ok table ∧
      (∀ (idx : Nat) (slot : KeySlot), table.slots[idx]? = some slot → ∀ others, Denotes crates table others idx slot ∧
        ∀ final, run (LifeOp.step crates) table others = some final → ∃ last : KeySlot,
          final.slots[idx]? = some last ∧ slot = { last with flags := slot.flags, ct := slot.ct } ∧
          (slot.isEnabled = false → last = slot)) ∧
      ∀ master passphrase draws idx next,
        KeySlotTable.addSlot crates master passphrase draws table = (.ok idx, next) →
        ∃ slot, KeySlot.create crates master passphrase 64 3 draws = .ok slot ∧
          ∀ others, Denotes crates next others idx slot := by
  have soundStart := Sound.of_newInitial made
  have sound := soundStart.run ran
  obtain ⟨salt, verifier, _⟩ := soundStart.run_frame ran
  refine ⟨⟨sound.manned, List.length_filter_le _ _, sound.few⟩, sound.wiped, ⟨salt, verifier⟩, sound.reload, ?_, ?_⟩
  · intro idx slot found others
    have denotes : Denotes crates table others idx slot := Denotes.of_found sound found others
    refine ⟨denotes, fun final ranOn => ?_⟩
    obtain ⟨last, at_idx, same⟩ := (sound.run_frame ranOn).2.2 idx slot found
    refine ⟨last, at_idx, same, fun disabled => ?_⟩
    have kept := denotes.of_disabled disabled List.prefix_rfl ranOn
    rw [at_idx] at kept
    exact Option.some.inj kept
  · intro owner passphrase draws idx next added
    have stepped : TableCall.step crates table (.addSlot owner passphrase draws) = some next := by
      simp only [TableCall.step, Method.after, added]
    have soundNext := sound.call stepped
    obtain ⟨_, rfl, slot, created, rfl⟩ := KeySlotTable.addSlot_ok added
    exact ⟨slot, created, fun others => Denotes.of_found soundNext (by simp) others⟩

/-- A slot is revoked, the table reloaded, the last enabled slot refused, and a third one added. -/
def handover : List LifeOp :=
  [.call (.addSlot (U8Array.zeros 32) (ascii "bob") SlotDraws.blank), .call (.revokeSlot 0), .reload,
    .call (.revokeSlot 1), .call (.addSlot (U8Array.zeros 32) (ascii "carol") SlotDraws.blank)]

theorem handover_reached : ∃ start table,
    KeySlotTable.newInitial checksumCrates (U8Array.zeros 32) (ascii "alice") TableDraws.blank = .ok start ∧
      run (LifeOp.step checksumCrates) start handover = some table ∧ table.slots.length = 3 := by
  have checked : (KeySlotTable.newInitial checksumCrates (U8Array.zeros 32) (ascii "alice")
      TableDraws.blank).toOption.any (fun start =>
        (run (LifeOp.step checksumCrates) start handover).any fun table => table.slots.length == 3) = true := by
    decide +kernel
  obtain ⟨start, initial, ranAll⟩ := Outcome.ok_of_any checked
  obtain ⟨table, ran, three⟩ := (Option.any_eq_true _ _).mp ranAll
  exact ⟨start, table, initial, ran, eq_of_beq three⟩

theorem life_sound_handover : ∃ start table,
    run (LifeOp.step checksumCrates) start handover = some table ∧ table.slots.length = 3 ∧
      (1 ≤ table.enabledCount ∧ table.enabledCount ≤ table.slots.length ∧ table.slots.length ≤ MAX_SLOTS) ∧
      ∀ slot ∈ table.slots, slot.isEnabled = false → slot.ct = U8Array.zeros CT_LEN := by
  obtain ⟨start, table, made, ran, three⟩ := handover_reached
  obtain ⟨limits, wiped, _⟩ := life_sound checksumCrates made ran
  exact ⟨start, table, ran, three, limits, wiped⟩

theorem run_length (crates : Crates) (sound : Sound start) {ops : List LifeOp}
    (ran : run (LifeOp.step crates) start ops = some table) : start.slots.length ≤ table.slots.length := by
  by_contra shorter
  have last : start.slots[table.slots.length]? = some start.slots[table.slots.length] :=
    List.getElem?_eq_getElem (Nat.lt_of_not_le shorter)
  obtain ⟨slot, found, _⟩ := (sound.run_frame ran).2.2 _ _ last
  exact absurd (List.getElem?_eq_some_iff.mp found).1 (Nat.lt_irrefl _)

def Sealable (crates : Crates) (master : U8Array MASTER_LEN) (passphrase : List UInt8) (draws : SlotDraws) : Prop :=
  ∃ (key : U8Array 32) (ct : U8Array CT_LEN),
    argon2idRoot crates passphrase draws.salt.val 64 3 = .ok (AegisKey.new32 key) ∧
      crates.aes256GcmEncrypt key (draws.fill NONCE_LEN) master.val HEADER_MAGIC = some ct.val

theorem sealable_iff {master : U8Array MASTER_LEN} {passphrase : List UInt8} {draws : SlotDraws} :
    Sealable crates master passphrase draws ↔
      ∃ slot, KeySlot.create crates master passphrase 64 3 draws = .ok slot := by
  constructor
  · intro ⟨key, ct, derived, encrypted⟩
    exact ⟨⟨draws.slotId, KDF_ID_ARGON2ID, 64, 3, draws.salt, draws.fill NONCE_LEN, ct, 1, draws.now⟩,
      (KeySlot.create_eq_ok_iff crates _ _ _ _ _ _).mpr ⟨⟨key, derived, encrypted⟩, rfl⟩⟩
  · intro ⟨slot, created⟩
    obtain ⟨⟨key, derived, encrypted⟩, shape⟩ := (KeySlot.create_eq_ok_iff crates _ _ _ _ _ _).mp created
    rw [shape] at derived encrypted
    exact ⟨key, slot.ct, derived, encrypted⟩

/-- The table takes a slot for as long as fewer than `MAX_SLOTS` slots have ever been made,
revoked ones included, and none from then on: revocation does not make room. -/
theorem life_capacity (crates : Crates) {master : U8Array MASTER_LEN} {passphrase : List UInt8} {draws : TableDraws}
    {start table : KeySlotTable} (made : KeySlotTable.newInitial crates master passphrase draws = .ok start)
    {ops : List LifeOp} (ran : run (LifeOp.step crates) start ops = some table) :
    (table.slots.length < MAX_SLOTS → ∀ master passphrase draws, Sealable crates master passphrase draws →
      ∃ next, KeySlotTable.addSlot crates master passphrase draws table = (.ok table.slots.length, next) ∧
        next.enabledCount = table.enabledCount + 1 ∧ next.slots.length = table.slots.length + 1) ∧
      (¬table.slots.length < MAX_SLOTS → ∀ others final, run (LifeOp.step crates) table others = some final →
        ∀ master passphrase draws, KeySlotTable.addSlot crates master passphrase draws final =
          (.err (.slotTableFull MAX_SLOTS), final)) := by
  have sound := (Sound.of_newInitial made).run ran
  constructor
  · intro room owner passphrase draws sealable
    obtain ⟨slot, created⟩ := sealable_iff.mp sealable
    refine ⟨{ table with slots := table.slots ++ [slot] }, ?_, ?_, List.length_append⟩
    · rw [KeySlotTable.addSlot_eq, if_neg (Nat.not_le.mpr room), created]
    · simp only [KeySlotTable.enabledCount, List.filter_append, List.length_append,
        List.filter_singleton, KeySlot.create_enabled crates created, cond_true, List.length_singleton]
  · intro full others final ranOn owner passphrase draws
    have stillFull := (Nat.not_lt.mp full).trans (run_length crates sound ranOn)
    rw [KeySlotTable.addSlot_eq, if_pos stillFull]

theorem carol_sealable : Sealable checksumCrates (U8Array.zeros 32) (ascii "carol") SlotDraws.blank := by
  have creates : (KeySlot.create checksumCrates (U8Array.zeros 32) (ascii "carol") 64 3
      SlotDraws.blank).toOption.isSome = true := by
    decide +kernel
  exact sealable_iff.mpr (Outcome.ok_of_isSome creates)

theorem life_capacity_handover : ∃ start table next,
    run (LifeOp.step checksumCrates) start handover = some table ∧
      KeySlotTable.addSlot checksumCrates (U8Array.zeros 32) (ascii "carol") SlotDraws.blank table = (.ok 3, next) ∧
      next.enabledCount = table.enabledCount + 1 := by
  obtain ⟨start, table, made, ran, three⟩ := handover_reached
  have room : table.slots.length < MAX_SLOTS := by
    rw [three]
    decide
  obtain ⟨next, added, counted, _⟩ := (life_capacity checksumCrates made ran).1 room _ _ _ carol_sealable
  rw [three] at added
  exact ⟨start, table, next, ran, added, counted⟩

def sixteen : List LifeOp :=
  List.replicate 15 (.call (.addSlot (U8Array.zeros 32) (ascii "bob") SlotDraws.blank)) ++ [.call (.revokeSlot 0)]

/-- One slot is disabled, and the table refuses another one. -/
theorem sixteen_refused : ∃ start table,
    KeySlotTable.newInitial checksumCrates (U8Array.zeros 32) (ascii "alice") TableDraws.blank = .ok start ∧
      run (LifeOp.step checksumCrates) start sixteen = some table ∧ table.enabledCount < MAX_SLOTS ∧
      Sealable checksumCrates (U8Array.zeros 32) (ascii "carol") SlotDraws.blank ∧
      KeySlotTable.addSlot checksumCrates (U8Array.zeros 32) (ascii "carol") SlotDraws.blank table =
        (.err (.slotTableFull MAX_SLOTS), table) := by
  have checked : (KeySlotTable.newInitial checksumCrates (U8Array.zeros 32) (ascii "alice")
      TableDraws.blank).toOption.any (fun start => (run (LifeOp.step checksumCrates) start sixteen).any
        fun table => table.enabledCount < MAX_SLOTS && MAX_SLOTS ≤ table.slots.length) = true := by
    decide +kernel
  obtain ⟨start, initial, ranAll⟩ := Outcome.ok_of_any checked
  obtain ⟨table, ran, counted⟩ := (Option.any_eq_true _ _).mp ranAll
  obtain ⟨few, full⟩ := (Bool.and_eq_true _ _).mp counted
  have refused := KeySlotTable.addSlot_eq checksumCrates (U8Array.zeros 32) (ascii "carol") SlotDraws.blank table
  rw [if_pos (of_decide_eq_true full)] at refused
  exact ⟨start, table, initial, ran, of_decide_eq_true few, carol_sealable,
    refused⟩

end SoteriaAegis.Slots
