import SoundArchive.Binary.RecordList
import SoundArchive.Wave.Basic
import SoundArchive.Wave.Numbered

/-!
# Wave archives

A wave archive numbers its waves and may leave numbers out. Its body holds the offset of every
wave, 0 for a number without one, and then the waves.
-/

namespace SoundArchive

structure WaveArchive where
  /-- The number of slots, empty ones included. -/
  length : Nat
  waves : Numbered Wave
deriving DecidableEq

namespace WaveArchive

def tag : Tag := .ofChars 'S' 'W' 'A' 'R'

/-- An archive without empty slots. -/
def ofWaves (waves : List Wave) : WaveArchive :=
  { length := waves.length, waves := .ofSlots (waves.map some) }

def wave? (a : WaveArchive) (n : Nat) : Option Wave := a.waves.find? n

def listStart : Nat := Resource.prologueLength + Resource.reservedLength

def decodeSlot (body : Bytes) (offset : UInt32) : Except ResourceError (Option Wave) :=
  if offset = 0 then .ok none else return some (← Wave.decode body offset.toNat)

def decode (body : Bytes) : Except ResourceError WaveArchive := do
  let _ ← Resource.readPrologue body tag
  let offsets ← Resource.required (RecordList.offsets? body listStart)
  let slots ← offsets.mapM (decodeSlot body)
  return { length := slots.length, waves := .ofSlots slots }

/-- Waves beyond the number of slots are not written. -/
def encode (a : WaveArchive) : Bytes :=
  let slots := a.waves.slots a.length
  let dataStart := listStart + RecordList.length slots
  let data := Bytes.concat ((slots.filterMap id).map Wave.encode)
  let total := align4 (dataStart + data.size)
  Resource.prologue tag total ++ Bytes.zeros Resource.reservedLength
    ++ RecordList.encode Wave.encodedLength dataStart slots ++ data
    ++ Bytes.zeros (total - (dataStart + data.size))

end WaveArchive

end SoundArchive
