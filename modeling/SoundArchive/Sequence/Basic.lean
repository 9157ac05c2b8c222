import SoundArchive.Binary.Resource

/-!
# Sequences

The body of a sequence holds nothing but its bytecode. Track 0 starts at offset 0.
-/

namespace SoundArchive

structure Sequence where
  code : Bytes
deriving DecidableEq

namespace Sequence

def tag : Tag := .ofChars 'S' 'S' 'E' 'Q'

/-- Where written bodies put the bytecode. -/
def codeOffset : Nat := Resource.prologueLength + 4

def decode (body : Bytes) : Except ResourceError Sequence := do
  let size ← Resource.readPrologue body tag
  let offset ← Resource.required (body.u32? Resource.prologueLength)
  let code ← Resource.required (body.slice? offset.toNat (size.toNat - 12))
  return { code }

def encode (s : Sequence) : Bytes :=
  Resource.prologue tag (codeOffset + s.code.size) ++ Bytes.ofU32 codeOffset.toUInt32 ++ s.code

end Sequence

end SoundArchive
