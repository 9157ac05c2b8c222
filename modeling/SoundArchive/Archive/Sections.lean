import SoundArchive.Archive.Error
import SoundArchive.Binary.RecordList

/-!
# Sections

Behind its header an archive has sections, each of which begins with a tag and its size. The
sections of names and of settings have the same shape: the offsets of eight lists of records,
the lists, and then all records.
-/

namespace SoundArchive

/-- A field of an archive that must be there. -/
def DecodeError.required {α : Type} (field : Option α) : Except DecodeError α :=
  match field with
  | some value => .ok value
  | none => .error (.truncated .field)

/-- Where the archive header puts a section. -/
structure Place where
  offset : UInt32
  length : UInt32
deriving DecidableEq

namespace Place

def read? (data : Bytes) (position : Nat) : Option Place := do
  let offset ← data.u32? position
  let length ← data.u32? (position + 4)
  return { offset, length }

def encode (p : Place) : Bytes := Bytes.ofU32 p.offset ++ Bytes.ofU32 p.length

/-- The section at a place, of at least `minimum` bytes, which begins with `tag`. -/
def readSection (p : Place) (data : Bytes) (tag : Tag) (minimum : Nat) :
    Except DecodeError Bytes := do
  if p.length.toNat < minimum then throw (.sectionSize tag p.length.toNat minimum)
  let stop := p.offset.toNat + p.length.toNat
  match data.range? p.offset.toNat stop with
  | none => throw (.outOfBounds (.section tag) p.offset.toNat stop)
  | some bytes =>
    let found ← DecodeError.required (Tag.read? bytes 0)
    if found ≠ tag then throw (.sectionTag tag found)
    return bytes

end Place

namespace RecordList

/-! ## Sections of lists -/

/-- Where a section has the offsets of its lists. -/
def startsOffset : Nat := 8

def sectionHeaderLength : Nat := 0x40

/-- Where the `n`th list of a section starts, 0 if it has no such list. -/
def start? (bytes : Bytes) (n : Nat) : Except DecodeError Nat :=
  return (← DecodeError.required (bytes.u32? (startsOffset + 4 * n))).toNat

/-- The starts of lists that follow each other, the first of them at `offset`. -/
def startsFrom {α : Type} (offset : Nat) : List (List (Option α)) → List UInt32
  | [] => []
  | slots :: rest => offset.toUInt32 :: startsFrom (offset + length slots) rest

/-- The lists, whose records follow each other, the first of them at `offset`. -/
def encodeFrom (offset : Nat) : List (List (Option Bytes)) → Bytes
  | [] => #[]
  | slots :: rest =>
    encode Array.size offset slots ++ encodeFrom (offset + recordsLength Array.size slots) rest

/-- A section of lists of encoded records. -/
def encodeSection (tag : Tag) (lists : List (List (Option Bytes))) : Bytes :=
  let recordsStart := sectionHeaderLength + lists.foldr (fun slots total => length slots + total) 0
  let records := Bytes.concat (lists.flatten.filterMap id)
  tag.toArray ++ Bytes.ofU32 (recordsStart + records.size).toUInt32
    ++ Bytes.ofU32s (startsFrom sectionHeaderLength lists)
    ++ Bytes.zeros (sectionHeaderLength - (startsOffset + 4 * lists.length))
    ++ encodeFrom recordsStart lists ++ records

end RecordList

end SoundArchive
