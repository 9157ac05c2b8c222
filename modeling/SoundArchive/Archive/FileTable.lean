import SoundArchive.Archive.Sections

/-!
# The file table

The file table says where in the archive each file is.
-/

namespace SoundArchive

structure FileRecord where
  offset : UInt32
  size : UInt32
deriving DecidableEq

namespace FileRecord

def start (r : FileRecord) : Nat := r.offset.toNat

def stop (r : FileRecord) : Nat := r.offset.toNat + r.size.toNat

def read? (bytes : Bytes) (p : Nat) : Option FileRecord := do
  let offset ← bytes.u32? p
  let size ← bytes.u32? (p + 4)
  return { offset, size }

/-- The bytes at the end of a record are not used. -/
def reservedLength : Nat := 8

def length : Nat := 8 + reservedLength

def encode (r : FileRecord) : Bytes :=
  Bytes.ofU32 r.offset ++ Bytes.ofU32 r.size ++ Bytes.zeros reservedLength

end FileRecord

namespace FileTable

def tag : Tag := .ofChars 'F' 'A' 'T' ' '

def headerLength : Nat := 12

/-- All records. The room for them is checked first, and of the last record its unused bytes may
be missing. -/
def readRecords? (bytes : Bytes) (count : Nat) : Option (List FileRecord) :=
  if count = 0 ∨ headerLength + FileRecord.length * count ≤ bytes.size + FileRecord.reservedLength
  then (List.range count).mapM fun i => FileRecord.read? bytes (headerLength + FileRecord.length * i)
  else none

def decode (bytes : Bytes) : Except DecodeError (List FileRecord) := do
  let count ← DecodeError.required (bytes.u32? 8)
  DecodeError.required (readRecords? bytes count.toNat)

def encode (records : List FileRecord) : Bytes :=
  let length := headerLength + FileRecord.length * records.length
  tag.toArray ++ Bytes.ofU32 length.toUInt32 ++ Bytes.ofU32 records.length.toUInt32
    ++ Bytes.concat (records.map FileRecord.encode)

/-- The records of files of these sizes, stored one behind the other from `offset` on. -/
def recordsFrom (offset : Nat) : List Nat → List FileRecord
  | [] => []
  | size :: rest =>
    { offset := offset.toUInt32, size := size.toUInt32 } :: recordsFrom (offset + size) rest

end FileTable

end SoundArchive
