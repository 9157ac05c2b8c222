import SoundArchive.Archive.Sections

/-!
# The index

The index has a list of records for every category. A record holds the settings of an entry,
and the file id of one that has a body.
-/

namespace SoundArchive

/-- A type whose values are stored with a fixed number of bytes. -/
class Storable (α : Type) where
  read? : Bytes → Nat → Option α
  encode : α → Bytes

/-! ## Settings -/

instance : Storable SequenceSettings where
  read? bytes p := do
    let reserved ← bytes.u16? p
    let bank ← bytes.u16? (p + 2)
    let volume ← bytes[p + 4]?
    let channelPriority ← bytes[p + 5]?
    let playerPriority ← bytes[p + 6]?
    let player ← bytes[p + 7]?
    let tail ← bytes[p + 8]?
    let tail' ← bytes[p + 9]?
    return { bank, volume, channelPriority, playerPriority, player, reserved,
             reservedTail := (tail, tail') }
  encode s :=
    Bytes.ofU16 s.reserved ++ Bytes.ofU16 s.bank ++ #[s.volume, s.channelPriority,
      s.playerPriority, s.player, s.reservedTail.1, s.reservedTail.2]

instance : Storable BankSettings where
  read? bytes p := do
    let reserved ← bytes.u16? p
    let a ← bytes.u16? (p + 2)
    let b ← bytes.u16? (p + 4)
    let c ← bytes.u16? (p + 6)
    let d ← bytes.u16? (p + 8)
    return { waveArchives := #v[a, b, c, d], reserved }
  encode s := Bytes.ofU16 s.reserved ++ Bytes.ofU16s s.waveArchives.toList

instance : Storable WaveArchiveSettings where
  read? bytes p := do
    let reserved ← bytes.u16? p
    return { reserved }
  encode s := Bytes.ofU16 s.reserved

instance : Storable PlayerSettings where
  read? bytes p := do
    let maxSequences ← bytes[p]?
    let padding ← bytes[p + 1]?
    let channelMask ← bytes.u16? (p + 2)
    let heapSize ← bytes.u32? (p + 4)
    return { maxSequences, padding, channelMask, heapSize }
  encode s :=
    #[s.maxSequences, s.padding] ++ Bytes.ofU16 s.channelMask ++ Bytes.ofU32 s.heapSize

/-! ## Records -/

/-- The record of an entry with a body. -/
structure FiledRecord (σ : Type) where
  fileId : UInt16
  settings : σ
deriving DecidableEq

instance {σ : Type} [Storable σ] : Storable (FiledRecord σ) where
  read? bytes p := do
    let fileId ← bytes.u16? p
    let settings ← Storable.read? bytes (p + 2)
    return { fileId, settings }
  encode r := Bytes.ofU16 r.fileId ++ Storable.encode r.settings

structure Index where
  sequences : Slots (FiledRecord SequenceSettings)
  banks : Slots (FiledRecord BankSettings)
  waveArchives : Slots (FiledRecord WaveArchiveSettings)
  players : Slots PlayerSettings
deriving DecidableEq

namespace Index

def tag : Tag := .ofChars 'I' 'N' 'F' 'O'

variable {α : Type} [Storable α]

def readSlot (bytes : Bytes) (offset : UInt32) : Except DecodeError (Option α) :=
  if offset = 0 then .ok none
  else some <$> DecodeError.required (Storable.read? bytes offset.toNat)

/-- The records of the list at `start`, none if it is 0. -/
def readSlots (bytes : Bytes) (start : Nat) : Except DecodeError (Slots α) := do
  if start = 0 then return []
  let offsets ← DecodeError.required (RecordList.offsets? bytes start)
  offsets.mapM (readSlot bytes)

def decode (bytes : Bytes) : Except DecodeError Index := do
  let sequences ← readSlots bytes (← RecordList.start? bytes 0)
  let banks ← readSlots bytes (← RecordList.start? bytes 2)
  let waveArchives ← readSlots bytes (← RecordList.start? bytes 3)
  let players ← readSlots bytes (← RecordList.start? bytes 4)
  return { sequences, banks, waveArchives, players }

def encodeSlots (slots : Slots α) : Slots Bytes := slots.mapLive Storable.encode

/-- The lists without a category here are written empty. -/
def encode (x : Index) : Bytes :=
  RecordList.encodeSection tag [encodeSlots x.sequences, [], encodeSlots x.banks,
    encodeSlots x.waveArchives, encodeSlots x.players, [], [], []]

end Index

end SoundArchive
