import SoundArchive.Bank.Basic
import SoundArchive.Binary.Resource

/-!
# Bank bodies

A body holds a header of four bytes for every instrument, its record and its offset, and behind
them what the instruments are made of. Offsets have 16 bits, which limits the size of a body.
-/

namespace SoundArchive

namespace KeyRange

/-- The stored bytes of a range, without its record. -/
def length : Nat := 10

def read? (body : Bytes) (offset : Nat) (lowNote highNote : UInt8) (record : UInt16) :
    Option KeyRange := do
  let wave ← body.u16? offset
  let waveArchive ← body.u16? (offset + 2)
  let baseNote ← body[offset + 4]?
  let attack ← body[offset + 5]?
  let decay ← body[offset + 6]?
  let sustain ← body[offset + 7]?
  let release ← body[offset + 8]?
  let pan ← body[offset + 9]?
  return { lowNote, highNote, record, wave, waveArchive, baseNote, attack, decay, sustain,
           release, pan }

def encode (r : KeyRange) : Bytes :=
  Bytes.ofU16 r.wave ++ Bytes.ofU16 r.waveArchive
    ++ #[r.baseNote, r.attack, r.decay, r.sustain, r.release, r.pan]

/-- A range with its record in front, as tables and splits store them. -/
def encodeWithRecord (r : KeyRange) : Bytes := Bytes.ofU16 r.record ++ r.encode

def readWithRecord? (body : Bytes) (offset : Nat) (lowNote highNote : UInt8) :
    Option KeyRange := do
  read? body (offset + 2) lowNote highNote (← body.u16? offset)

end KeyRange

namespace Instrument

def tableRecord : UInt8 := 16

def splitRecord : UInt8 := 17

/-- The regions that a key split has room for. -/
def splitRegions : Nat := 8

/-- The bytes of a stored range and its record. -/
def recordedLength : Nat := 2 + KeyRange.length

/-! ## Reading -/

def readTable? (body : Bytes) (offset : Nat) : Option Instrument := do
  let low ← body[offset]?
  let high ← body[offset + 1]?
  let ranges ← (List.range (high - low + 1).toNat).mapM fun i =>
    let note := low + i.toUInt8
    KeyRange.readWithRecord? body (offset + 2 + i * recordedLength) note note
  return .noteTable low ranges

/-- The spans of the regions, up to the first that ends at 0. Each begins behind the one in
front of it, the first at `low`. -/
def regionSpans (low : UInt8) : List UInt8 → List (UInt8 × UInt8)
  | [] => []
  | high :: rest => if high = 0 then [] else (low, high) :: regionSpans (high + 1) rest

def readSplit? (body : Bytes) (offset : Nat) : Option Instrument := do
  let regions ← body.slice? offset splitRegions
  let ranges ← (regionSpans 0 regions.toList).zipIdx.mapM fun (span, i) =>
    KeyRange.readWithRecord? body (offset + splitRegions + i * recordedLength) span.1 span.2
  return .keySplit ranges

/-- The instrument that `record` announces at `offset`. -/
def read? (body : Bytes) (offset : Nat) (record : UInt8) : Option Instrument :=
  if record = 0 then some .empty
  else if record = tableRecord then readTable? body offset
  else if record = splitRecord then readSplit? body offset
  else (KeyRange.read? body offset 0 127 record.toUInt16).map .single

/-! ## Writing -/

/-- The record byte of the header. Of the record of a single range its low byte is written. -/
def recordByte : Instrument → UInt8
  | empty => 0
  | single range => range.record.toUInt8
  | noteTable .. => tableRecord
  | keySplit _ => splitRecord

/-- The eight region bytes: the high notes of the first ranges, then zeros. -/
def regionBytes (ranges : List KeyRange) : Bytes :=
  let notes := (ranges.map (·.highNote)).take splitRegions
  (notes ++ List.replicate (splitRegions - notes.length) 0).toArray

def encode : Instrument → Bytes
  | empty => #[]
  | single range => range.encode
  | noteTable lowNote ranges =>
    let high := (ranges.getLast?.map (·.highNote)).getD lowNote
    #[lowNote, high] ++ Bytes.concat (ranges.map KeyRange.encodeWithRecord)
  | keySplit ranges =>
    regionBytes ranges ++ Bytes.concat (ranges.map KeyRange.encodeWithRecord)

end Instrument

namespace Bank

def tag : Tag := .ofChars 'S' 'B' 'N' 'K'

def countOffset : Nat := Resource.prologueLength + Resource.reservedLength

def headersStart : Nat := countOffset + 4

/-- The instrument whose header is at `offset`. -/
def readInstrument? (body : Bytes) (offset : Nat) : Option Instrument := do
  let record ← body[offset]?
  let start ← body.u16? (offset + 1)
  let _ ← body[offset + 3]?
  Instrument.read? body start.toNat record

/-- All instruments. The room for their headers is checked first. -/
def readInstruments? (body : Bytes) (count : Nat) : Option (List Instrument) :=
  if count = 0 ∨ headersStart + 4 * count ≤ body.size then
    (List.range count).mapM fun i => readInstrument? body (headersStart + 4 * i)
  else none

def decode (body : Bytes) : Except ResourceError Bank := do
  let _ ← Resource.readPrologue body tag
  let count ← Resource.required (body.u32? countOffset)
  let instruments ← Resource.required (readInstruments? body count.toNat)
  return { instruments }

/-- The headers of the instruments, the first of which is stored at `offset`. One whose record
byte is 0 has the offset 0. -/
def headersFrom (offset : Nat) : List Instrument → List Bytes
  | [] => []
  | i :: rest =>
    let start := if i.recordByte = 0 then 0 else offset.toUInt16
    (#[i.recordByte] ++ Bytes.ofU16 start ++ #[0])
      :: headersFrom (offset + i.encode.size) rest

def maxLength : Nat := 0xFFFF

def encode (b : Bank) : Except ResourceError Bytes :=
  let start := headersStart + 4 * b.instruments.length
  let payload := Bytes.concat (b.instruments.map Instrument.encode)
  let total := align4 (start + payload.size)
  if start + payload.size > maxLength then .error (.tooLarge total)
  else .ok (Resource.prologue tag total ++ Bytes.zeros Resource.reservedLength
    ++ Bytes.ofU32 b.instruments.length.toUInt32
    ++ Bytes.concat (headersFrom start b.instruments) ++ payload
    ++ Bytes.zeros (total - (start + payload.size)))

end Bank

end SoundArchive
