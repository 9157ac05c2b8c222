import SoundArchive.Archive.Sections

/-!
# Names

The section of names has a list of names for every category. A name is stored with a byte for
each character, and a zero at its end.
-/

namespace SoundArchive

structure Symbols where
  sequences : Slots String
  banks : Slots String
  waveArchives : Slots String
deriving DecidableEq

namespace Symbols

def tag : Tag := .ofChars 'S' 'Y' 'M' 'B'

/-! ## Names -/

/-- Where the name at `p` ends. -/
def nameEnd? (bytes : Bytes) (p : Nat) : Option Nat :=
  if h : p < bytes.size then
    if bytes[p] = 0 then some p else nameEnd? bytes (p + 1)
  else none
termination_by bytes.size - p

def readName (bytes : Bytes) (p : Nat) : Except DecodeError String :=
  match nameEnd? bytes p with
  | none => .error (.truncated .name)
  | some stop =>
    .ok (String.ofList ((bytes.extract p stop).toList.map fun b => Char.ofNat b.toNat))

/-- Characters that have no byte become the last that has one. -/
def encodeName (name : String) : Bytes :=
  (name.toList.map fun c => (min c.toNat 0xFF).toUInt8).toArray.push 0

/-! ## The section -/

def readSlot (bytes : Bytes) (offset : UInt32) : Except DecodeError (Option String) :=
  if offset = 0 then .ok none else some <$> readName bytes offset.toNat

/-- The names of the list at `start`, none if it is 0. Each offset is read right before its
name, so of an offset and a name that are both cut off the first in the list counts. -/
def readSlots (bytes : Bytes) (start : Nat) : Except DecodeError (Slots String) := do
  if start = 0 then return []
  let count := (← DecodeError.required (bytes.u32? start)).toNat
  let available := min count ((bytes.size - (start + 4)) / 4)
  let names ← (List.range available).mapM fun i => do
    readSlot bytes (← DecodeError.required (bytes.u32? (start + 4 + 4 * i)))
  if available < count then throw (.truncated .field)
  return names

def decode (bytes : Bytes) : Except DecodeError Symbols := do
  let sequences ← readSlots bytes (← RecordList.start? bytes 0)
  let banks ← readSlots bytes (← RecordList.start? bytes 2)
  let waveArchives ← readSlots bytes (← RecordList.start? bytes 3)
  return { sequences, banks, waveArchives }

/-- The lists without a category here are written empty. -/
def encode (s : Symbols) : Bytes :=
  (RecordList.encodeSection tag [s.sequences.mapLive encodeName, [], s.banks.mapLive encodeName,
    s.waveArchives.mapLive encodeName, [], [], [], []]).padded

end Symbols

end SoundArchive
