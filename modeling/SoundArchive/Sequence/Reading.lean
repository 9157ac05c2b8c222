import SoundArchive.Binary.Bytes
import SoundArchive.Sequence.Opcode
import SoundArchive.Text.Hex

/-!
# Reading bytecode

Operands are little-endian integers of fixed width, or numbers of variable length with seven
bits a byte, high bits first, every byte but the last marked by its top bit. A read returns
the value and the offset behind it, and fails with the offset of the first missing byte.

`skipCommand` finds the end of a command from the length of its operands alone.
-/

namespace SoundArchive

/-- The bytecode ends in the middle of a command: there is no byte at `position`. -/
structure EndOfData where
  position : Nat
deriving DecidableEq

def EndOfData.message (e : EndOfData) : String :=
  "The bytecode ends in the middle of a command (at " ++ Text.hex e.position 0 ++ ")"

namespace Bytecode

/-! ## Integers -/

def byteAt (code : Bytes) (p : Nat) : Except EndOfData UInt8 :=
  match code[p]? with
  | some b => .ok b
  | none => .error ⟨p⟩

def readU8 (code : Bytes) (p : Nat) : Except EndOfData (UInt8 × Nat) := do
  let b ← byteAt code p
  return (b, p + 1)

def readU16 (code : Bytes) (p : Nat) : Except EndOfData (UInt16 × Nat) := do
  let low ← byteAt code p
  let high ← byteAt code (p + 1)
  return (low.toUInt16 ||| (high.toUInt16 <<< 8), p + 2)

def readS16 (code : Bytes) (p : Nat) : Except EndOfData (Int16 × Nat) := do
  let (v, p) ← readU16 code p
  return (v.toInt16, p)

def readU24 (code : Bytes) (p : Nat) : Except EndOfData (UInt32 × Nat) := do
  let low ← byteAt code p
  let middle ← byteAt code (p + 1)
  let high ← byteAt code (p + 2)
  return (low.toUInt32 ||| (middle.toUInt32 <<< 8) ||| (high.toUInt32 <<< 16), p + 3)

/-- A number has at most this many bytes: the last one ends it whatever its mark says. -/
def maxNumberLength : Nat := 4

/-- Up to `count` more bytes of a number whose bits so far are `value`. -/
def readNumberFrom (code : Bytes) : Nat → Nat → UInt32 → Except EndOfData (UInt32 × Nat)
  | 0, p, value => .ok (value, p)
  | count + 1, p, value => do
    let b ← byteAt code p
    let value := (value <<< 7) ||| (b &&& 0x7F).toUInt32
    if b &&& 0x80 = 0 then return (value, p + 1) else readNumberFrom code count (p + 1) value

def readNumber (code : Bytes) (p : Nat) : Except EndOfData (UInt32 × Nat) :=
  readNumberFrom code maxNumberLength p 0

/-- The bytes in front of the last one, for the bits above the lowest seven. -/
def numberLead (rest : Nat) : List UInt8 :=
  if rest = 0 then [] else numberLead (rest / 128) ++ [(rest % 128).toUInt8 ||| 0x80]

/-- The shortest bytes that read as `value`. -/
def encodeNumber (value : UInt32) : List UInt8 :=
  numberLead (value.toNat / 128) ++ [(value.toNat % 128).toUInt8]

/-! ## Skipping -/

def skipBytes (code : Bytes) (p count : Nat) : Except EndOfData Nat :=
  if p + count ≤ code.size then .ok (p + count) else .error ⟨max p code.size⟩

/-- The offset behind a number, of which at most `count` bytes remain. -/
def skipNumberFrom (code : Bytes) : Nat → Nat → Except EndOfData Nat
  | 0, p => .ok p
  | count + 1, p =>
    match code[p]? with
    | none => .error ⟨p⟩
    | some b => if b < 0x80 then .ok (p + 1) else skipNumberFrom code count (p + 1)

def skipNumber (code : Bytes) (p : Nat) : Except EndOfData Nat :=
  skipNumberFrom code maxNumberLength p

/-- The number of literal bytes behind a prefix and the opcode it changes: the byte that notes
and variable commands keep, and the operands of the prefix. -/
def prefixedLength (byRandom : Bool) (target : Opcode) : Nat :=
  (if target.isNote || target.isVariable then 1 else 0) + (if byRandom then 4 else 1)

/-- The end of the operands of an opcode that is no conditional. -/
def skipPlain (code : Bytes) (op : Opcode) (p : Nat) : Except EndOfData Nat :=
  match op.operands with
  | .none => .ok p
  | .u8 => skipBytes code p 1
  | .u16 | .s16 => skipBytes code p 2
  | .u24 => skipBytes code p 3
  | .number => skipNumber code p
  | .note => do skipNumber code (← skipBytes code p 1)
  | .openTrack => skipBytes code p 4
  | .variable => skipBytes code p 3
  | .prefixed => do
    let target ← byteAt code p
    skipBytes code (p + 1) (prefixedLength (op == .random) (.ofByte target))

/-- The offset behind the command at `p`, prefixes included. -/
def skipCommand (code : Bytes) (p : Nat) : Except EndOfData Nat :=
  if h : p < code.size then
    match Opcode.ofByte code[p] with
    | .conditional => skipCommand code (p + 1)
    | op => skipPlain code op (p + 1)
  else .error ⟨p⟩
termination_by code.size - p

def skipOperands (code : Bytes) (op : Opcode) (p : Nat) : Except EndOfData Nat :=
  if op = .conditional then skipCommand code p else skipPlain code op p

def commandLength (code : Bytes) (p : Nat) : Except EndOfData Nat := do
  return (← skipCommand code p) - p

end Bytecode

end SoundArchive
