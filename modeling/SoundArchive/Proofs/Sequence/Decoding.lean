import Mathlib.Data.Nat.Bitwise
import SoundArchive.Sequence.Command
import SoundArchive.Sequence.PatchScan

/-! # Reading a command ends where skipping it ends, and fails with the same error -/

namespace SoundArchive

namespace Bytecode

/-! ## Integers -/

theorem byteAt_of_lt {code : Bytes} {p : Nat} (h : p < code.size) :
    byteAt code p = .ok code[p] := by
  simp [byteAt, h]

theorem byteAt_of_le {code : Bytes} {p : Nat} (h : code.size ≤ p) : byteAt code p = .error ⟨p⟩ := by
  simp [byteAt, h]

theorem readU8_end (code : Bytes) (p : Nat) :
    (readU8 code p).map Prod.snd = skipBytes code p 1 := by
  unfold readU8 skipBytes
  by_cases h : p < code.size
  · rw [byteAt_of_lt h, if_pos (by omega)]
    rfl
  · rw [byteAt_of_le (by omega), if_neg (by omega), Nat.max_eq_left (by omega)]
    rfl

theorem readU16_end (code : Bytes) (p : Nat) :
    (readU16 code p).map Prod.snd = skipBytes code p 2 := by
  unfold readU16 skipBytes
  by_cases h : p < code.size
  · by_cases h1 : p + 1 < code.size
    · rw [byteAt_of_lt h, byteAt_of_lt h1, if_pos (by omega)]
      rfl
    · rw [byteAt_of_lt h, byteAt_of_le (by omega), if_neg (by omega),
        show p + 1 = max p code.size by omega]
      rfl
  · rw [byteAt_of_le (by omega), if_neg (by omega), Nat.max_eq_left (by omega)]
    rfl

theorem readS16_end (code : Bytes) (p : Nat) :
    (readS16 code p).map Prod.snd = skipBytes code p 2 := by
  rw [← readU16_end]
  unfold readS16
  cases readU16 code p <;> rfl

theorem readU24_end (code : Bytes) (p : Nat) :
    (readU24 code p).map Prod.snd = skipBytes code p 3 := by
  unfold readU24 skipBytes
  by_cases h : p < code.size
  · by_cases h1 : p + 1 < code.size
    · by_cases h2 : p + 2 < code.size
      · rw [byteAt_of_lt h, byteAt_of_lt h1, byteAt_of_lt h2, if_pos (by omega)]
        rfl
      · rw [byteAt_of_lt h, byteAt_of_lt h1, byteAt_of_le (by omega), if_neg (by omega),
          show p + 2 = max p code.size by omega]
        rfl
    · rw [byteAt_of_lt h, byteAt_of_le (by omega), if_neg (by omega),
        show p + 1 = max p code.size by omega]
      rfl
  · rw [byteAt_of_le (by omega), if_neg (by omega), Nat.max_eq_left (by omega)]
    rfl

/-- The mark of a byte is its top bit. -/
theorem unmarked_iff (b : UInt8) : b &&& 0x80 = 0 ↔ b < 0x80 := by
  have h : ∀ v : BitVec 8, v &&& 0x80#8 = 0#8 ↔ v < 0x80#8 := by decide
  rw [← UInt8.toBitVec_inj, UInt8.lt_iff_toBitVec_lt]
  exact h b.toBitVec

theorem readNumberFrom_end (code : Bytes) (count p : Nat) (value : UInt32) :
    (readNumberFrom code count p value).map Prod.snd = skipNumberFrom code count p := by
  induction count generalizing p value with
  | zero => rfl
  | succ count ih =>
    unfold readNumberFrom skipNumberFrom
    by_cases h : p < code.size
    · rw [byteAt_of_lt h, Array.getElem?_eq_getElem h]
      simp only [bind, Except.bind, unmarked_iff]
      split
      · rfl
      · exact ih _ _
    · rw [byteAt_of_le (by omega), Array.getElem?_eq_none (by omega)]
      rfl

theorem readNumber_end (code : Bytes) (p : Nat) :
    (readNumber code p).map Prod.snd = skipNumber code p :=
  readNumberFrom_end code maxNumberLength p 0

/-! ## Several operands -/

/-- Two reads, one behind the other, end where two skips end. -/
theorem end_bind {α β : Type} {first : Except EndOfData (α × Nat)}
    {second : α × Nat → Except EndOfData (β × Nat)} {skip : Except EndOfData Nat}
    {skip' : Nat → Except EndOfData Nat} (h : first.map Prod.snd = skip)
    (h' : ∀ a q, (second (a, q)).map Prod.snd = skip' q) :
    (first >>= second).map Prod.snd = skip >>= skip' := by
  subst h
  cases first with
  | error e => rfl
  | ok r => exact h' r.1 r.2

theorem skipBytes_add (code : Bytes) (p m n : Nat) :
    skipBytes code p m >>= (skipBytes code · n) = skipBytes code p (m + n) := by
  unfold skipBytes
  by_cases hm : p + m ≤ code.size
  · rw [if_pos hm]
    simp only [bind, Except.bind, ← Nat.add_assoc]
    split
    · rfl
    · rw [show max (p + m) code.size = max p code.size by omega]
  · rw [if_neg hm, if_neg (by omega)]
    rfl

end Bytecode

namespace Instruction

open Bytecode

theorem readOperands_end (code : Bytes) (op : Opcode) (p : Nat) (h : op.operands ≠ .prefixed) :
    (readOperands code op p).map Prod.snd = skipPlain code op p := by
  unfold readOperands skipPlain
  match hop : op.operands with
  | .none => rfl
  | .u8 => exact (end_bind (readU8_end code p) fun _ _ => rfl).trans (bind_pure _)
  | .u16 => exact (end_bind (readU16_end code p) fun _ _ => rfl).trans (bind_pure _)
  | .s16 => exact (end_bind (readS16_end code p) fun _ _ => rfl).trans (bind_pure _)
  | .u24 => exact (end_bind (readU24_end code p) fun _ _ => rfl).trans (bind_pure _)
  | .number => exact (end_bind (readNumber_end code p) fun _ _ => rfl).trans (bind_pure _)
  | .note =>
    exact end_bind (readU8_end code p) fun _ q =>
      (end_bind (readNumber_end code q) fun _ _ => rfl).trans (bind_pure _)
  | .openTrack =>
    rw [← skipBytes_add code p 1 3]
    exact end_bind (readU8_end code p) fun _ q =>
      (end_bind (readU24_end code q) fun _ _ => rfl).trans (bind_pure _)
  | .variable =>
    rw [← skipBytes_add code p 1 2]
    exact end_bind (readU8_end code p) fun _ q =>
      (end_bind (readS16_end code q) fun _ _ => rfl).trans (bind_pure _)
  | .prefixed => exact absurd hop h

theorem read_end (code : Bytes) (op : Opcode) (p : Nat) (h : op.operands ≠ .prefixed) :
    (read code op p).map Prod.snd = skipPlain code op p := by
  rw [← readOperands_end code op p h]
  unfold read
  cases readOperands code op p <;> rfl

end Instruction

/-! ## Commands -/

theorem Opcode.operands_eq_prefixed_iff (op : Opcode) :
    op.operands = .prefixed ↔ op = .random ∨ op = .fromVariable ∨ op = .conditional := by
  cases op <;> simp [Opcode.operands]

theorem Bytecode.skipCommand_of_ne {code : Bytes} {p : Nat} (h : p < code.size)
    (hop : Opcode.ofByte code[p] ≠ .conditional) :
    skipCommand code p = skipPlain code (Opcode.ofByte code[p]) (p + 1) := by
  rw [skipCommand, dif_pos h]
  split
  · next hc => exact absurd hc hop
  · rfl

namespace Command

open Bytecode

/-- A prefix ends behind the literal byte that its target keeps and its own operands. -/
theorem readTarget_end {α : Type} (code : Bytes) (p count : Nat)
    {operands : (Opcode × UInt8) × Nat → Except EndOfData (α × Nat)}
    (h : ∀ t q, (operands (t, q)).map Prod.snd = skipBytes code q count) :
    (readTarget code p >>= operands).map Prod.snd =
      byteAt code p >>= fun b => skipBytes code (p + 1)
        ((if (Opcode.ofByte b).isNote || (Opcode.ofByte b).isVariable then 1 else 0) + count) := by
  rw [end_bind rfl h]
  unfold readTarget readU8
  by_cases hp : p < code.size
  · rw [byteAt_of_lt hp]
    by_cases hkeep : ((Opcode.ofByte code[p]).isNote || (Opcode.ofByte code[p]).isVariable) = true
    · have hadd := skipBytes_add code (p + 1) 1 count
      rw [← readU8_end, readU8] at hadd
      simp only [bind, Except.bind, pure, Except.pure, if_pos hkeep] at hadd ⊢
      rw [← hadd]
      cases byteAt code (p + 1) <;> rfl
    · simp only [bind, Except.bind, pure, Except.pure, if_neg hkeep, Nat.zero_add]
      rfl
  · rw [byteAt_of_le (by omega)]
    rfl

theorem read_end (code : Bytes) (p : Nat) : (read code p).map Prod.snd = skipCommand code p := by
  fun_induction read code p with
  | case1 p h hop =>
    rw [skipCommand_of_ne h (by simp [hop]), hop]
    refine readTarget_end code (p + 1) 4 fun t q => ?_
    rw [← skipBytes_add code q 2 2]
    exact end_bind (readS16_end code q) fun _ r =>
      (end_bind (readS16_end code r) fun _ _ => rfl).trans (bind_pure _)
  | case2 p h hop =>
    rw [skipCommand_of_ne h (by simp [hop]), hop]
    refine readTarget_end code (p + 1) 1 fun t q => ?_
    exact (end_bind (readU8_end code q) fun _ _ => rfl).trans (bind_pure _)
  | case3 p h hop ih =>
    rw [skipCommand, dif_pos h, hop]
    exact (end_bind ih fun _ _ => rfl).trans (bind_pure _)
  | case4 p h h1 h2 h3 =>
    rw [skipCommand_of_ne h h3]
    have hplain : (Opcode.ofByte code[p]).operands ≠ .prefixed := by
      rw [Ne, Opcode.operands_eq_prefixed_iff]
      rintro (hop | hop | hop)
      · exact h1 hop
      · exact h2 hop
      · exact h3 hop
    exact (end_bind (Instruction.read_end code _ (p + 1) hplain) fun _ _ => rfl).trans
      (bind_pure _)
  | case5 p h =>
    rw [skipCommand, dif_neg h]
    rfl

end Command

end SoundArchive
