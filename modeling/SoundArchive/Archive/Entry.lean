import SoundArchive.Archive.Slots
import SoundArchive.Bank.Body
import SoundArchive.Sequence.Basic
import SoundArchive.Text.Hex
import SoundArchive.Wave.Archive

/-!
# Entries

Sequences, banks and wave archives are entries: each has a name, a body, the settings that the
index keeps of it, and the resource that its body holds. Players have settings only.
-/

namespace SoundArchive

inductive EntryKind where
  | sequence
  | bank
  | waveArchive
deriving DecidableEq

namespace EntryKind

def label : EntryKind → String
  | sequence => "sequence"
  | bank => "bank"
  | waveArchive => "wave archive"

def placeholderPrefix : EntryKind → String
  | sequence => "SSEQ"
  | bank => "SBNK"
  | waveArchive => "SWAR"

/-- The name of an entry that has none, made of its file id. -/
def placeholder (kind : EntryKind) (fileId : UInt16) : String :=
  kind.placeholderPrefix ++ Text.hexDigits fileId.toNat 4

end EntryKind

/-- An entry whose index record keeps `σ` and whose body holds `ρ`. -/
structure Entry (σ ρ : Type) where
  name : String
  /-- The entry has no name of its own. -/
  isPlaceholder : Bool
  /-- The archive that the entry came from. -/
  archiveId : String
  fileId : UInt16
  body : Bytes
  settings : σ
  /-- What the body holds, if it was read. -/
  resource : Option ρ
deriving DecidableEq

namespace Entry

variable {σ ρ : Type}

def lacksName (e : Entry σ ρ) : Bool := e.isPlaceholder || e.name.isEmpty

/-- The name that is written for the entry. -/
def symbol (e : Entry σ ρ) (kind : EntryKind) : String :=
  if e.lacksName then kind.placeholder e.fileId else e.name

/-- Gives an entry without a name its placeholder for good. -/
def named (e : Entry σ ρ) (kind : EntryKind) : Entry σ ρ :=
  if e.lacksName then { e with name := kind.placeholder e.fileId, isPlaceholder := false } else e

end Entry

/-! ## Settings -/

structure SequenceSettings where
  bank : UInt16
  volume : UInt8
  channelPriority : UInt8
  playerPriority : UInt8
  player : UInt8
  reserved : UInt16
  reservedTail : UInt8 × UInt8
deriving DecidableEq

structure BankSettings where
  waveArchives : Vector UInt16 4
  reserved : UInt16
deriving DecidableEq

/-- Stands where a bank has no wave archive. -/
def BankSettings.noWaveArchive : UInt16 := 0xFFFF

structure WaveArchiveSettings where
  reserved : UInt16
deriving DecidableEq

structure PlayerSettings where
  maxSequences : UInt8
  padding : UInt8
  /-- The channels that sequences may use. -/
  channelMask : UInt16
  heapSize : UInt32
deriving DecidableEq

abbrev SequenceEntry := Entry SequenceSettings Sequence

abbrev BankEntry := Entry BankSettings Bank

abbrev WaveArchiveEntry := Entry WaveArchiveSettings WaveArchive

end SoundArchive
