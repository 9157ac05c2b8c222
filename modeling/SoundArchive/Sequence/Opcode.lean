/-!
# Opcodes

The first byte of a command says what it does and which operands follow. Bytes below 0x80 are
notes, the byte being the key. Bytes without a meaning take no operands.
-/

namespace SoundArchive

/-- Commands that compute a new value of a variable. -/
inductive Assignment where
  | set | add | sub | mul | div | shift | random
deriving DecidableEq, Repr

/-- Commands that compare a variable with a value, for the conditional commands behind them. -/
inductive Comparison where
  | eq | ge | gt | le | lt | ne
deriving DecidableEq, Repr

inductive Opcode where
  | note (key : UInt8)
  | rest
  | patch
  | openTrack
  | jump
  | call
  | random
  | fromVariable
  | conditional
  | assign (how : Assignment)
  /-- Takes the operands of a variable command and does nothing. -/
  | idleVariable
  | compare (how : Comparison)
  | pan
  | volume
  | masterVolume
  | transpose
  | pitchBend
  | bendRange
  | priority
  | noteWait
  | tie
  | portamentoKey
  | modulationDepth
  | modulationSpeed
  | modulationKind
  | modulationRange
  | portamento
  | portamentoTime
  | attack
  | decay
  | sustain
  | release
  | loopStart
  | expression
  | printVariable
  | modulationDelay
  | tempo
  | sweepPitch
  | loopEnd
  | ret
  | allocateTracks
  | finish
  | unassigned
deriving DecidableEq, Repr

/-- The shape of the operands behind an opcode. -/
inductive Operands where
  | none
  | u8
  | u16
  | s16
  | u24
  | number
  /-- A velocity, then a duration of variable length. -/
  | note
  /-- A track, then an offset of three bytes. -/
  | openTrack
  /-- The index of a variable, then a signed halfword. -/
  | variable
  /-- Another command, whose last operand is computed or which may be skipped. -/
  | prefixed
deriving DecidableEq, Repr

namespace Opcode

def ofByte (b : UInt8) : Opcode :=
  if b < 0x80 then .note b else
    match b with
    | 0x80 => .rest
    | 0x81 => .patch
    | 0x93 => .openTrack
    | 0x94 => .jump
    | 0x95 => .call
    | 0xA0 => .random
    | 0xA1 => .fromVariable
    | 0xA2 => .conditional
    | 0xB0 => .assign .set
    | 0xB1 => .assign .add
    | 0xB2 => .assign .sub
    | 0xB3 => .assign .mul
    | 0xB4 => .assign .div
    | 0xB5 => .assign .shift
    | 0xB6 => .assign .random
    | 0xB7 => .idleVariable
    | 0xB8 => .compare .eq
    | 0xB9 => .compare .ge
    | 0xBA => .compare .gt
    | 0xBB => .compare .le
    | 0xBC => .compare .lt
    | 0xBD => .compare .ne
    | 0xC0 => .pan
    | 0xC1 => .volume
    | 0xC2 => .masterVolume
    | 0xC3 => .transpose
    | 0xC4 => .pitchBend
    | 0xC5 => .bendRange
    | 0xC6 => .priority
    | 0xC7 => .noteWait
    | 0xC8 => .tie
    | 0xC9 => .portamentoKey
    | 0xCA => .modulationDepth
    | 0xCB => .modulationSpeed
    | 0xCC => .modulationKind
    | 0xCD => .modulationRange
    | 0xCE => .portamento
    | 0xCF => .portamentoTime
    | 0xD0 => .attack
    | 0xD1 => .decay
    | 0xD2 => .sustain
    | 0xD3 => .release
    | 0xD4 => .loopStart
    | 0xD5 => .expression
    | 0xD6 => .printVariable
    | 0xE0 => .modulationDelay
    | 0xE1 => .tempo
    | 0xE3 => .sweepPitch
    | 0xFC => .loopEnd
    | 0xFD => .ret
    | 0xFE => .allocateTracks
    | 0xFF => .finish
    | _ => .unassigned

def isNote : Opcode → Bool
  | note _ => true
  | _ => false

/-- Whether the index of a variable comes in front of the value. -/
def isVariable : Opcode → Bool
  | assign _ | idleVariable | compare _ => true
  | _ => false

def operands : Opcode → Operands
  | note _ => .note
  | rest | patch => .number
  | openTrack => .openTrack
  | jump | call => .u24
  | random | fromVariable | conditional => .prefixed
  | assign _ | idleVariable | compare _ => .variable
  | pan | volume | masterVolume | transpose | pitchBend | bendRange | priority | noteWait | tie
  | portamentoKey | modulationDepth | modulationSpeed | modulationKind | modulationRange
  | portamento | portamentoTime | attack | decay | sustain | release | loopStart | expression
  | printVariable => .u8
  | modulationDelay | tempo | allocateTracks => .u16
  | sweepPitch => .s16
  | loopEnd | ret | finish | unassigned => .none

end Opcode

end SoundArchive
