import SoteriaAegis.Rust.Bytes

/-! Decoders that walk one buffer under a moving position. A layout says how many
bytes a decoder consumes, how a value and those bytes belong together, and what a
buffer that ends early gives. Layouts compose along `do` blocks and counted loops,
so a record's decoder is judged field by field. -/

namespace SoteriaAegis.Rust
variable {ε α β : Type}

/-- The receiver is the position, `pos: &mut usize`. -/
abbrev Decoder (ε α : Type) : Type := Method Nat ε α

def window (buf : List UInt8) (pos width : Nat) : List UInt8 := (buf.drop pos).take width

theorem window_length (buf : List UInt8) (pos width : Nat) (inside : pos + width ≤ buf.length) :
    (window buf pos width).length = width := by
  simp only [window, List.length_take, List.length_drop]
  omega

theorem window_take (buf : List UInt8) (pos first rest : Nat) :
    (window buf pos (first + rest)).take first = window buf pos first := by
  simp only [window, List.take_take]
  congr 1
  omega

theorem window_drop (buf : List UInt8) (pos first rest : Nat) :
    (window buf pos (first + rest)).drop first = window buf (pos + first) rest := by
  simp only [window, List.drop_take, List.drop_drop]
  congr 1
  omega

theorem window_append (before middle after : List UInt8) :
    window (before ++ middle ++ after) before.length middle.length = middle := by
  simp [window]

theorem window_window (buf : List UInt8) (pos width start len : Nat) (inside : start + len ≤ width) :
    window (window buf pos width) start len = window buf (pos + start) len := by
  simp only [window, List.drop_take, List.take_take, List.drop_drop]
  congr 1
  omega

theorem window_flatMap {encode : α → List UInt8} {width : Nat} (widths : ∀ value, (encode value).length = width)
    (before after : List UInt8) (values : List α) (i : Nat) (inside : i < values.length) :
    window (before ++ values.flatMap encode ++ after) (before.length + i * width) width = encode values[i] := by
  induction values generalizing before i with
  | nil => cases inside
  | cons value others ih =>
    cases i with
    | zero =>
      have first := window_append before (encode value) (others.flatMap encode ++ after)
      rw [widths] at first
      simpa only [List.flatMap_cons, List.append_assoc, Nat.zero_mul, Nat.add_zero, List.getElem_cons_zero] using first
    | succ i =>
      have later := ih (before ++ encode value) i (Nat.lt_of_succ_lt_succ inside)
      rw [List.length_append, widths, Nat.add_assoc, Nat.add_comm width, ← Nat.succ_mul] at later
      simpa only [List.flatMap_cons, List.append_assoc, List.getElem_cons_succ, Nat.succ_eq_add_one] using later

/-- Concatenated codes of one width determine how many values they hold, and which. -/
theorem flatMap_injective_of_width {encode : α → List UInt8} {width : Nat}
    (widths : ∀ value, (encode value).length = width) (injective : Function.Injective encode)
    {first second : List α} (count : first.length = second.length)
    (same : first.flatMap encode = second.flatMap encode) : first = second := by
  induction first generalizing second with
  | nil => exact (List.length_eq_zero_iff.mp count.symm).symm
  | cons value rest ih =>
    cases second with
    | nil => cases count
    | cons other others =>
      simp only [List.flatMap_cons] at same
      obtain ⟨head, tail⟩ := List.append_inj same ((widths value).trans (widths other).symm)
      rw [injective head, ih (Nat.succ.inj count) tail]

theorem flatMap_length_of_width {encode : α → List UInt8} {width : Nat}
    (widths : ∀ value, (encode value).length = width) (values : List α) :
    (values.flatMap encode).length = values.length * width := by
  induction values with
  | nil => simp
  | cons value rest ih =>
    rw [List.flatMap_cons, List.length_append, widths, ih, List.length_cons, Nat.succ_mul, Nat.add_comm]

/-- The value of a decoder that ran out of bytes: an error, or with `none` a panic. -/
def stop : Option ε → Outcome ε α
  | some error => .err error
  | none => .panic

@[simp] theorem stop_eq_panic_iff (short : Option ε) : (stop short : Outcome ε α) = .panic ↔ short = none := by
  cases short with
  | none => simp [stop]
  | some error => simp [stop]

theorem stop_ne_ok (short : Option ε) (value : α) : stop short ≠ .ok value := by
  cases short with
  | none => simp [stop]
  | some error => simp [stop]

/-- Bytes consumed, and what a rest of fewer bytes gives. -/
structure Shape (ε : Type) where
  width : Nat
  short : Nat → Option ε

namespace Shape

def empty : Shape ε := ⟨0, fun _ => none⟩

def seq (first rest : Shape ε) : Shape ε where
  width := first.width + rest.width
  short left := if left < first.width then first.short left else rest.short (left - first.width)

def times (shape : Shape ε) (count : Nat) : Shape ε where
  width := count * shape.width
  short left := shape.short (left % shape.width)

end Shape

/-- `decode` consumes `shape`, and its value stands in `Encodes` to the bytes consumed. -/
structure Follows (buf : List UInt8) (decode : Decoder ε α) (shape : Shape ε)
    (Encodes : α → List UInt8 → Prop) : Prop where
  full : ∀ pos, pos + shape.width ≤ buf.length → ∃ value,
    decode pos = (.ok value, pos + shape.width) ∧ Encodes value (window buf pos shape.width)
  cut : ∀ pos, pos ≤ buf.length → buf.length < pos + shape.width →
    (decode pos).1 = stop (shape.short (buf.length - pos))

namespace Follows
variable {buf : List UInt8}

theorem pure (value : α) :
    Follows buf (Pure.pure value : Decoder ε α) Shape.empty (fun found bytes => found = value ∧ bytes = []) where
  full pos inside := ⟨value, rfl, rfl, by simp [window, Shape.empty]⟩
  cut pos inside short := by
    simp only [Shape.empty] at short
    omega

theorem bind {first : Decoder ε α} {next : α → Decoder ε β} {shape rest : Shape ε}
    {Head : α → List UInt8 → Prop} {Tail : α → β → List UInt8 → Prop}
    (head : Follows buf first shape Head) (tail : ∀ value, Follows buf (next value) rest (Tail value)) :
    Follows buf (first >>= next) (shape.seq rest) (fun result bytes => ∃ value,
      Head value (bytes.take shape.width) ∧ Tail value result (bytes.drop shape.width)) where
  full pos inside := by
    simp only [Shape.seq] at inside ⊢
    obtain ⟨value, ran, encoded⟩ := head.full pos (by omega)
    obtain ⟨result, ranRest, encodedRest⟩ := (tail value).full (pos + shape.width) (by omega)
    refine ⟨result, ?_, value, ?_, ?_⟩
    · rw [Method.bind_of_ok first next ran, ranRest, Nat.add_assoc]
    · rwa [window_take]
    · rwa [window_drop]
  cut pos inside short := by
    simp only [Shape.seq] at short ⊢
    by_cases early : buf.length < pos + shape.width
    · have left : buf.length - pos < shape.width := by omega
      rw [if_pos left, Method.bind_apply]
      have stopped := head.cut pos inside early
      cases reason : shape.short (buf.length - pos) with
      | none =>
        rw [reason] at stopped
        cases run : first pos with
        | mk result after => rw [run] at stopped; subst stopped; rfl
      | some error =>
        rw [reason] at stopped
        cases run : first pos with
        | mk result after => rw [run] at stopped; subst stopped; rfl
    · have left : ¬buf.length - pos < shape.width := by omega
      obtain ⟨value, ran, _⟩ := head.full pos (by omega)
      rw [if_neg left, Method.bind_of_ok first next ran,
        (tail value).cut (pos + shape.width) (by omega) (by omega), Nat.sub_add_eq]

/-- A decoder never stops half way with a value: what it returned was all there. -/
theorem inside_of_ok {decode : Decoder ε α} {shape : Shape ε} {Encodes : α → List UInt8 → Prop}
    (follows : Follows buf decode shape Encodes) {pos after : Nat} {value : α} (start : pos ≤ buf.length)
    (ran : decode pos = (.ok value, after)) :
    pos + shape.width ≤ buf.length ∧ after = pos + shape.width ∧
      Encodes value (window buf pos shape.width) := by
  by_cases inside : pos + shape.width ≤ buf.length
  · obtain ⟨found, ranFull, encoded⟩ := follows.full pos inside
    rw [ran] at ranFull
    cases ranFull
    exact ⟨inside, rfl, encoded⟩
  · have stopped := follows.cut pos start (by omega)
    rw [ran] at stopped
    exact absurd stopped.symm (stop_ne_ok _ _)

end Follows

/-- `let byte = body[pos]; pos += 1`, with the raw index. -/
def rawByte (buf : List UInt8) : Decoder ε UInt8 := do
  let byte ← Method.lift (Outcome.index buf (← Method.self))
  Method.update (· + 1)
  return byte

theorem rawByte_follows (buf : List UInt8) :
    Follows buf (rawByte buf : Decoder ε UInt8) ⟨1, fun _ => none⟩ (fun byte bytes => bytes = [byte]) where
  full pos inside := by
    have fits : pos < buf.length := inside
    refine ⟨buf[pos], ?_, ?_⟩
    · simp only [rawByte, Method.bind_apply, Method.self_apply, Method.lift_apply,
        Outcome.index_of_lt buf pos fits, Method.update_apply, Method.pure_apply]
    · rw [window, List.drop_eq_getElem_cons fits, List.take_succ_cons, List.take_zero]
  cut pos inside short := by
    have ended : buf.length ≤ pos := Nat.le_of_lt_succ short
    simp only [rawByte, Method.bind_apply, Method.self_apply, Method.lift_apply,
      Outcome.index_of_le buf pos ended, stop]

def collect (decode : Decoder ε α) : Nat → List α → Decoder ε (List α)
  | 0, acc => pure acc
  | count + 1, acc => do
      let value ← decode
      collect decode count (acc ++ [value])

theorem collect_follows {buf : List UInt8} {decode : Decoder ε α} {shape : Shape ε}
    {encode : α → List UInt8}
    (one : Follows buf decode shape (fun value bytes => encode value = bytes)) (count : Nat) (acc : List α) :
    Follows buf (collect decode count acc) (shape.times count) (fun values bytes =>
      ∃ new, values = acc ++ new ∧ new.length = count ∧ new.flatMap encode = bytes) := by
  induction count generalizing acc with
  | zero =>
    refine ⟨fun pos inside => ⟨acc, ?_, [], ?_⟩, ?_⟩
    · simp only [collect, Method.pure_apply, Shape.times, Nat.zero_mul, Nat.add_zero]
    · simp [Shape.times, window]
    · intro pos inside short
      simp only [Shape.times, Nat.zero_mul] at short
      omega
  | succ count ih =>
    have step := one.bind (fun value => ih (acc ++ [value]))
    have widths : (shape.seq (shape.times count)).width = (shape.times (count + 1)).width := by
      simp only [Shape.seq, Shape.times, Nat.succ_mul]
      omega
    refine ⟨fun pos inside => ?_, fun pos inside short => ?_⟩
    · rw [← widths] at inside ⊢
      obtain ⟨values, ran, value, first, new, grown, counted, encoded⟩ := step.full pos inside
      refine ⟨values, ran, value :: new, ?_, ?_, ?_⟩
      · rw [grown, List.append_assoc, List.singleton_append]
      · rw [List.length_cons, counted]
      · rw [List.flatMap_cons, first, encoded, List.take_append_drop]
    · rw [← widths] at short
      rw [collect, step.cut pos inside short]
      simp only [Shape.seq, Shape.times]
      by_cases early : buf.length - pos < shape.width
      · rw [if_pos early, Nat.mod_eq_of_lt early]
      · rw [if_neg early, ← Nat.mod_eq_sub_mod (Nat.le_of_not_lt early)]

end SoteriaAegis.Rust
