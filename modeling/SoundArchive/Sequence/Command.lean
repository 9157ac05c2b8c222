import SoundArchive.Sequence.Reading

/-!
# Commands

A command as it stands in the bytecode, with its operands read but not computed yet. What a
prefix computes takes the place of the last operand of the command behind it.
-/

namespace SoundArchive

/-- An opcode and its operands. Those that its shape does not have are 0. -/
structure Instruction where
  opcode : Opcode
  first : Int32 := 0
  second : Int32 := 0
deriving DecidableEq

namespace Instruction

/-- The operands at `p`, each as a word. Those of a command behind a prefix are not read here. -/
def readOperands (code : Bytes) (op : Opcode) (p : Nat) :
    Except EndOfData ((Int32 × Int32) × Nat) :=
  match op.operands with
  | .none | .prefixed => .ok ((0, 0), p)
  | .u8 => do
    let (v, p) ← Bytecode.readU8 code p
    return ((v.toUInt32.toInt32, 0), p)
  | .u16 => do
    let (v, p) ← Bytecode.readU16 code p
    return ((v.toUInt32.toInt32, 0), p)
  | .s16 => do
    let (v, p) ← Bytecode.readS16 code p
    return ((v.toInt32, 0), p)
  | .u24 => do
    let (v, p) ← Bytecode.readU24 code p
    return ((v.toInt32, 0), p)
  | .number => do
    let (v, p) ← Bytecode.readNumber code p
    return ((v.toInt32, 0), p)
  | .note => do
    let (velocity, p) ← Bytecode.readU8 code p
    let (duration, p) ← Bytecode.readNumber code p
    return ((velocity.toUInt32.toInt32, duration.toInt32), p)
  | .openTrack => do
    let (track, p) ← Bytecode.readU8 code p
    let (offset, p) ← Bytecode.readU24 code p
    return ((track.toUInt32.toInt32, offset.toInt32), p)
  | .variable => do
    let (index, p) ← Bytecode.readU8 code p
    let (value, p) ← Bytecode.readS16 code p
    return ((index.toUInt32.toInt32, value.toInt32), p)

def read (code : Bytes) (op : Opcode) (p : Nat) : Except EndOfData (Instruction × Nat) := do
  let ((first, second), p) ← readOperands code op p
  return ({ opcode := op, first, second }, p)

/-- The instruction whose last operand was computed. Notes and variable commands keep the byte
in front of it. -/
def computed (op : Opcode) (extra : UInt8) (value : Int16) : Instruction :=
  match op.operands with
  | .note | .variable => { opcode := op, first := extra.toUInt32.toInt32, second := value.toInt32 }
  | _ => { opcode := op, first := value.toInt32 }

end Instruction

inductive Command where
  | plain (instruction : Instruction)
  /-- The last operand is a random number between two others. -/
  | random (opcode : Opcode) (extra : UInt8) (low high : Int16)
  /-- The last operand is the value of a variable. -/
  | fromVariable (opcode : Opcode) (extra : UInt8) (index : UInt8)
  /-- The command is skipped unless the last comparison held. -/
  | conditional (command : Command)

namespace Command

/-- The opcode behind a prefix at `p`, and the byte that belongs to it. -/
def readTarget (code : Bytes) (p : Nat) : Except EndOfData ((Opcode × UInt8) × Nat) := do
  let (b, p) ← Bytecode.readU8 code p
  let op := Opcode.ofByte b
  if op.isNote || op.isVariable then
    let (extra, p) ← Bytecode.readU8 code p
    return ((op, extra), p)
  else return ((op, 0), p)

def read (code : Bytes) (p : Nat) : Except EndOfData (Command × Nat) :=
  if h : p < code.size then
    match Opcode.ofByte code[p] with
    | .random => do
      let ((op, extra), p) ← readTarget code (p + 1)
      let (low, p) ← Bytecode.readS16 code p
      let (high, p) ← Bytecode.readS16 code p
      return (.random op extra low high, p)
    | .fromVariable => do
      let ((op, extra), p) ← readTarget code (p + 1)
      let (index, p) ← Bytecode.readU8 code p
      return (.fromVariable op extra index, p)
    | .conditional => do
      let (command, p) ← read code (p + 1)
      return (.conditional command, p)
    | op => do
      let (instruction, p) ← Instruction.read code op (p + 1)
      return (.plain instruction, p)
  else .error ⟨p⟩
termination_by code.size - p

end Command

end SoundArchive
