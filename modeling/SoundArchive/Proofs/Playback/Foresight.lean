import SoundArchive.Playback.Control
import SoundArchive.Proofs.Sequence.Visits

/-! # A visit foresees the instructions that its command may come to -/

namespace SoundArchive

open Bytecode

/-! ## Literal numbers -/

theorem toInt_word {w : UInt32} (h : w.toNat < 2 ^ 31) : w.toInt32.toInt = w.toNat := by
  have hbits : w.toInt32.toInt = w.toBitVec.toInt := rfl
  rw [hbits, BitVec.toInt_eq_toNat_of_lt (by rw [UInt32.toNat_toBitVec]; omega),
    UInt32.toNat_toBitVec]

theorem offsetOf_word {w : UInt32} (h : w.toNat < 2 ^ 31) :
    Control.offsetOf w.toInt32 = w.toNat := by
  have hint : w.toInt32.toInt64.toInt = w.toNat := by rw [Int32.toInt_toInt64, toInt_word h]
  have hle : 0 ≤ w.toInt32.toInt64 := by
    rw [Int64.le_iff_toInt_le, hint]
    exact Int.natCast_nonneg _
  rw [Control.offsetOf, Int64.toNat_toUInt64_of_le hle, Int64.toNatClampNeg, hint,
    Int.toNat_natCast]

theorem countOf_word {w : UInt32} (h : w.toNat < 2 ^ 31) : Control.countOf w.toInt32 = w := by
  have hle : 0 ≤ w.toInt32 := by
    rw [Int32.le_iff_toInt_le, toInt_word h]
    exact Int.natCast_nonneg _
  have hmax : max w.toInt32 0 = w.toInt32 := by
    change (if w.toInt32 ≤ 0 then 0 else w.toInt32) = w.toInt32
    split
    · next hge => exact Int32.le_antisymm hle hge
    · rfl
  rw [Control.countOf, hmax, UInt32.toUInt32_toInt32]

/-! ## Where a command ends -/

namespace PatchScan

/-- The command that was visited can be read, and ends at the same place. -/
theorem read_of_visit {code : Bytes} {p : Nat} {v : Visit} (h : visit code p = .ok v) :
    ∃ command, Command.read code p = .ok (command, v.behind) := by
  have hend : (Command.read code p).map Prod.snd = .ok v.behind := by
    rw [Command.read_end, ← visit_end, h]
    rfl
  obtain ⟨⟨command, q⟩, hread, rfl⟩ := map_eq_ok.1 hend
  exact ⟨command, hread⟩

end PatchScan

/-! ## What a command may come to -/

/-- The instructions that a command may come to, whatever it computes. -/
inductive Command.Yields : Command → Instruction → Prop where
  | plain (i : Instruction) : Yields (.plain i) i
  | random (op : Opcode) (extra : UInt8) (low high value : Int16) :
    Yields (.random op extra low high) (.computed op extra value)
  | fromVariable (op : Opcode) (extra index : UInt8) (value : Int16) :
    Yields (.fromVariable op extra index) (.computed op extra value)
  | conditional {c : Command} {i : Instruction} (h : Yields c i) : Yields (.conditional c) i

theorem Command.yields_of_resolve {condition : Bool} {s s' : Score} {c : Command}
    {i : Instruction} (h : c.resolve condition s = (some i, s')) : c.Yields i := by
  induction c with
  | plain instruction =>
    cases h
    exact .plain _
  | random op extra low high =>
    cases h
    exact .random ..
  | fromVariable op extra index =>
    cases h
    exact .fromVariable ..
  | conditional c ih =>
    unfold resolve at h
    split at h
    · exact .conditional (ih h)
    · cases h

/-- Only a conditional command is skipped. -/
theorem Command.conditional_of_resolve {condition : Bool} {s s' : Score} {c : Command}
    (h : c.resolve condition s = (none, s')) : ∃ inner, c = .conditional inner := by
  cases c with
  | plain instruction => cases h
  | random op extra low high => cases h
  | fromVariable op extra index => cases h
  | conditional inner => exact ⟨inner, rfl⟩

theorem Instruction.computed_opcode (op : Opcode) (extra : UInt8) (value : Int16) :
    (Instruction.computed op extra value).opcode = op := by
  unfold Instruction.computed
  split <;> rfl

theorem Instruction.read_opcode {code : Bytes} {op : Opcode} {p q : Nat} {i : Instruction}
    (h : Instruction.read code op p = .ok (i, q)) : i.opcode = op := by
  obtain ⟨⟨⟨first, second⟩, r⟩, -, h⟩ := bind_eq_ok.1 h
  cases h
  rfl

theorem Instruction.read_of_number {op : Opcode} (hop : op.operands = .number) (code : Bytes)
    (p : Nat) : Instruction.read code op p =
      (readNumber code p).map fun r => ({ opcode := op, first := r.1.toInt32 }, r.2) := by
  unfold Instruction.read Instruction.readOperands
  rw [hop]
  cases readNumber code p <;> rfl

theorem Instruction.read_of_u24 {op : Opcode} (hop : op.operands = .u24) (code : Bytes)
    (p : Nat) : Instruction.read code op p =
      (readU24 code p).map fun r => ({ opcode := op, first := r.1.toInt32 }, r.2) := by
  unfold Instruction.read Instruction.readOperands
  rw [hop]
  cases readU24 code p <;> rfl

theorem Command.readTarget_opcode {code : Bytes} {p q : Nat} {op : Opcode} {extra : UInt8}
    (h : Command.readTarget code p = .ok ((op, extra), q)) :
    code[p]?.map Opcode.ofByte = some op := by
  obtain ⟨⟨b, r⟩, hread, h⟩ := bind_eq_ok.1 h
  obtain ⟨b, hb, hread⟩ := bind_eq_ok.1 hread
  cases hread
  rw [byteAt_eq_ok.1 hb]
  dsimp only at h
  split at h
  · obtain ⟨⟨extra, r⟩, -, h⟩ := bind_eq_ok.1 h
    cases h
    rfl
  · cases h
    rfl

/-- What was read begins with its opcode, and behind a prefix there is what it stands in front of. -/
theorem Command.read_inv {code : Bytes} {p q : Nat} {c : Command}
    (h : Command.read code p = .ok (c, q)) :
    ∃ hp : p < code.size, match c with
      | .plain i => (Opcode.ofByte code[p]).operands ≠ .prefixed ∧
        Instruction.read code (Opcode.ofByte code[p]) (p + 1) = .ok (i, q)
      | .random op extra .. => Opcode.ofByte code[p] = .random ∧
        ∃ r, Command.readTarget code (p + 1) = .ok ((op, extra), r)
      | .fromVariable op extra _ => Opcode.ofByte code[p] = .fromVariable ∧
        ∃ r, Command.readTarget code (p + 1) = .ok ((op, extra), r)
      | .conditional inner => Opcode.ofByte code[p] = .conditional ∧
        Command.read code (p + 1) = .ok (inner, q) := by
  have hp : p < code.size := by
    by_contra hp
    rw [Command.read, dif_neg hp] at h
    cases h
  refine ⟨hp, ?_⟩
  rw [Command.read, dif_pos hp] at h
  split at h
  · next hop =>
    obtain ⟨⟨⟨op, extra⟩, r⟩, htarget, h⟩ := bind_eq_ok.1 h
    obtain ⟨low, -, h⟩ := bind_eq_ok.1 h
    obtain ⟨high, -, h⟩ := bind_eq_ok.1 h
    cases h
    exact ⟨hop, r, htarget⟩
  · next hop =>
    obtain ⟨⟨⟨op, extra⟩, r⟩, htarget, h⟩ := bind_eq_ok.1 h
    obtain ⟨index, -, h⟩ := bind_eq_ok.1 h
    cases h
    exact ⟨hop, r, htarget⟩
  · next hop =>
    obtain ⟨⟨inner, r⟩, hinner, h⟩ := bind_eq_ok.1 h
    cases h
    exact ⟨hop, hinner⟩
  · next hrandom hvariable hconditional =>
    obtain ⟨⟨i, r⟩, hi, h⟩ := bind_eq_ok.1 h
    cases h
    refine ⟨?_, hi⟩
    rw [Ne, Opcode.operands_eq_prefixed_iff]
    rintro (hop | hop | hop)
    · exact hrandom hop
    · exact hvariable hop
    · exact hconditional hop

/-- A command without a prefix comes to the instruction that it is. -/
theorem Command.read_plain {code : Bytes} {p q : Nat} {c : Command} {i : Instruction}
    (h : p < code.size) (hop : (Opcode.ofByte code[p]).operands ≠ .prefixed)
    (hc : Command.read code p = .ok (c, q)) (hi : c.Yields i) :
    Instruction.read code (Opcode.ofByte code[p]) (p + 1) = .ok (i, q) := by
  rw [Ne, Opcode.operands_eq_prefixed_iff] at hop
  cases hi with
  | plain i => exact (Command.read_inv hc).snd.2
  | random => exact absurd (.inl (Command.read_inv hc).snd.1) hop
  | fromVariable => exact absurd (.inr (.inl (Command.read_inv hc).snd.1)) hop
  | conditional => exact absurd (.inr (.inr (Command.read_inv hc).snd.1)) hop

/-- A command with a prefix that computes comes to an instruction of its target. -/
theorem Command.read_computed {code : Bytes} {p q : Nat} {c : Command} {i : Instruction}
    (h : p < code.size)
    (hop : Opcode.ofByte code[p] = .random ∨ Opcode.ofByte code[p] = .fromVariable)
    (hc : Command.read code p = .ok (c, q)) (hi : c.Yields i) :
    ∃ op extra value r, Command.readTarget code (p + 1) = .ok ((op, extra), r) ∧
      i = .computed op extra value := by
  cases hi with
  | plain i =>
    have hprefixed := (Opcode.operands_eq_prefixed_iff _).2 (hop.imp_right .inl)
    exact absurd hprefixed (Command.read_inv hc).snd.1
  | random op extra _ _ value | fromVariable op extra _ value =>
    obtain ⟨-, -, r, htarget⟩ := Command.read_inv hc
    exact ⟨op, extra, value, r, htarget, rfl⟩
  | conditional =>
    rw [(Command.read_inv hc).snd.1] at hop
    rcases hop with hop | hop <;> cases hop

namespace PatchScan

/-- A return at `p` that no prefix stands in front of. -/
def IsReturn (code : Bytes) (p : Nat) : Prop := code[p]?.map Opcode.ofByte = some .ret

/-- What a visit of the command at `p` says about an instruction that it may come to: which
patch or target it has, and that the walk goes on behind it wherever the instruction may. -/
def Foresees (code : Bytes) (p : Nat) (v : Visit) (i : Instruction) : Prop :=
  match i.opcode with
  | .patch => v.fallsThrough = true ∧ (v.finding = .computed ∨
      ∃ site, v.finding = .patch site ∧ site.patch = Control.countOf i.first)
  | .jump => v.finding = .computed ∨
      ∃ operand, v.finding = .branch operand (Control.offsetOf i.first)
  | .call => v.fallsThrough = true ∧ (v.finding = .computed ∨
      ∃ operand, v.finding = .branch operand (Control.offsetOf i.first))
  | .ret => v.fallsThrough = true ∨ (IsReturn code p ∧ v.behind = p + 1)
  | .finish => True
  | _ => v.fallsThrough = true

/-! ## What a visit foresees -/

theorem foresees_of_fallsThrough {code : Bytes} {p : Nat} {v : Visit} {i : Instruction}
    (hfall : v.fallsThrough = true) (hpatch : i.opcode ≠ .patch) (hjump : i.opcode ≠ .jump)
    (hcall : i.opcode ≠ .call) : Foresees code p v i := by
  unfold Foresees
  split
  · next h => exact absurd h hpatch
  · next h => exact absurd h hjump
  · next h => exact absurd h hcall
  · exact .inl hfall
  · trivial
  · exact hfall

theorem foresees_of_patch {code : Bytes} {p q : Nat} {v : Visit} {i : Instruction}
    (hv : (do
      let (patch, behind) ← readNumber code (p + 1)
      let site := { command := p, operand := p + 1, length := behind - (p + 1), patch }
      return { finding := .patch site, behind, fallsThrough := true }) = Except.ok v)
    (hi : Instruction.read code .patch (p + 1) = .ok (i, q)) : Foresees code p v i := by
  obtain ⟨⟨patch, behind⟩, hn, hv⟩ := bind_eq_ok.1 hv
  cases hv
  rw [Instruction.read_of_number rfl, hn] at hi
  cases hi
  have hlt : patch.toNat < 2 ^ 31 := (readNumber_lt hn).trans (by decide)
  exact ⟨rfl, .inr ⟨_, rfl, (countOf_word hlt).symm⟩⟩

theorem visitBranch_fallsThrough {code : Bytes} {p : Nat} {v : Visit} {fallsThrough : Bool}
    (hv : visitBranch code p fallsThrough = .ok v) : v.fallsThrough = fallsThrough := by
  obtain ⟨⟨target, behind⟩, -, hv⟩ := bind_eq_ok.1 hv
  cases hv
  rfl

/-- The visit of a branch found its target. -/
theorem finding_of_branch {code : Bytes} {op : Opcode} {p q : Nat} {v : Visit}
    {i : Instruction} {fallsThrough : Bool} (hop : op.operands = .u24)
    (hv : visitBranch code p fallsThrough = .ok v)
    (hi : Instruction.read code op p = .ok (i, q)) :
    i.opcode = op ∧ v.fallsThrough = fallsThrough ∧
      ∃ operand, v.finding = .branch operand (Control.offsetOf i.first) := by
  obtain ⟨⟨target, behind⟩, hn, hv⟩ := bind_eq_ok.1 hv
  cases hv
  rw [Instruction.read_of_u24 hop, hn] at hi
  cases hi
  have hlt : target.toNat < 2 ^ 31 := (readU24_lt hn).trans (by decide)
  exact ⟨rfl, rfl, _, by rw [offsetOf_word hlt]⟩

theorem foresees_of_computed {code : Bytes} {prefixOp op : Opcode} {p target q : Nat}
    {extra : UInt8} {value : Int16} {v : Visit}
    (hv : visit.visitComputed code prefixOp target = .ok v)
    (ht : Command.readTarget code target = .ok ((op, extra), q)) :
    Foresees code p v (.computed op extra value) := by
  have hop := Instruction.computed_opcode op extra value
  have htarget := Command.readTarget_opcode ht
  have hdecisive : (code[target]?.map fun b => isDecisive (.ofByte b)) = some (isDecisive op) := by
    rw [← Option.map_some, ← htarget, Option.map_map]
    rfl
  obtain ⟨behind, -, hv⟩ := bind_eq_ok.1 hv
  rw [hdecisive] at hv
  cases hv
  by_cases hd : isDecisive op = true
  · unfold Foresees
    rw [hop]
    cases op <;> simp_all [isDecisive]
  · refine foresees_of_fallsThrough rfl ?_ ?_ ?_ <;>
    · rw [hop]
      rintro rfl
      exact hd rfl

theorem Foresees.conditional {code : Bytes} {p : Nat} {v : Visit} {i : Instruction}
    (h : Foresees code (p + 1) v i) : Foresees code p { v with fallsThrough := true } i := by
  unfold Foresees at h ⊢
  split
  · next hop =>
    rw [hop] at h
    exact ⟨rfl, h.2⟩
  · next hop =>
    rw [hop] at h
    exact h
  · next hop =>
    rw [hop] at h
    exact ⟨rfl, h.2⟩
  · exact .inl rfl
  · trivial
  · rfl

/-- Whatever a visited command comes to, the visit foresaw. -/
theorem foresees_of_yields {code : Bytes} {p q : Nat} {v : Visit} {c : Command}
    {i : Instruction} (hv : visit code p = .ok v) (hc : Command.read code p = .ok (c, q))
    (hi : c.Yields i) : Foresees code p v i := by
  fun_induction visit code p generalizing v c q i with
  | case1 p h hop =>
    have hi := Command.read_plain h (by rw [hop]; decide) hc hi
    rw [hop] at hi
    exact foresees_of_patch hv hi
  | case2 p h hop =>
    have hi := Command.read_plain h (by rw [hop]; decide) hc hi
    have hopcode := Instruction.read_opcode hi
    rw [hop] at hopcode
    have hfall : v.fallsThrough = true := by
      obtain ⟨⟨track, r⟩, -, hv⟩ := bind_eq_ok.1 hv
      exact visitBranch_fallsThrough hv
    apply foresees_of_fallsThrough hfall <;> simp [hopcode]
  | case3 p h hop =>
    have hi := Command.read_plain h (by rw [hop]; decide) hc hi
    rw [hop] at hi
    obtain ⟨hopcode, -, hfinding⟩ := finding_of_branch rfl hv hi
    simp only [Foresees, hopcode]
    exact .inr hfinding
  | case4 p h hop =>
    have hi := Command.read_plain h (by rw [hop]; decide) hc hi
    rw [hop] at hi
    obtain ⟨hopcode, hfall, hfinding⟩ := finding_of_branch rfl hv hi
    simp only [Foresees, hopcode]
    exact ⟨hfall, .inr hfinding⟩
  | case5 p h hop ih =>
    obtain ⟨w, hw, hv⟩ := bind_eq_ok.1 hv
    cases hv
    rw [Command.read, dif_pos h, hop] at hc
    obtain ⟨⟨inner, r⟩, hinner, hc⟩ := bind_eq_ok.1 hc
    cases hc
    cases hi with
    | conditional hi => exact (ih hw hinner hi).conditional
  | case6 p h hop =>
    have hopcode := Instruction.read_opcode (Command.read_plain h (by rw [hop]; decide) hc hi)
    cases hv
    simp only [Foresees, hopcode, hop]
    exact .inr ⟨by simp [IsReturn, h, hop], trivial⟩
  | case7 p h hop =>
    have hopcode := Instruction.read_opcode (Command.read_plain h (by rw [hop]; decide) hc hi)
    simp only [Foresees, hopcode, hop]
  | case8 p h hop =>
    obtain ⟨op, extra, value, r, ht, rfl⟩ := Command.read_computed h (.inl hop) hc hi
    exact foresees_of_computed hv ht
  | case9 p h hop =>
    obtain ⟨op, extra, value, r, ht, rfl⟩ := Command.read_computed h (.inr hop) hc hi
    exact foresees_of_computed hv ht
  | case10 p h hpatch hopen hjump hcall hif hret hfinish hrandom hvar =>
    have hplain : (Opcode.ofByte code[p]).operands ≠ .prefixed := by
      rw [Ne, Opcode.operands_eq_prefixed_iff]
      rintro (hop | hop | hop)
      · exact hrandom hop
      · exact hvar hop
      · exact hif hop
    have hopcode := Instruction.read_opcode (Command.read_plain h hplain hc hi)
    obtain ⟨behind, -, hv⟩ := bind_eq_ok.1 hv
    cases hv
    apply foresees_of_fallsThrough rfl <;> rw [hopcode]
    · exact hpatch
    · exact hjump
    · exact hcall
  | case11 p h => cases hv

end PatchScan

end SoundArchive
