import SoundArchive.Archive.Entry

/-!
# Archives

An archive holds sequences, the banks they play with, the wave archives whose waves the banks
use, and the players that sequences play on.
-/

namespace SoundArchive

structure Archive where
  /-- How many archives were merged into this one. -/
  mergeCount : UInt16
  /-- Names are written with the archive. -/
  hasSymbols : Bool
  /-- Placeholders are to become names the next time that files are renumbered. -/
  needsSymbolCleanup : Bool
  /-- The number of records of the file table. Entries may share a file or use none of it. -/
  fileTableLength : Nat
  sequences : Slots SequenceEntry
  banks : Slots BankEntry
  waveArchives : Slots WaveArchiveEntry
  players : Slots PlayerSettings
deriving DecidableEq

namespace Archive

/-! ## Entries -/

def sequence? (a : Archive) (n : Nat) : Option SequenceEntry := a.sequences.entry? n

def bank? (a : Archive) (n : UInt16) : Option BankEntry := a.banks.entry? n.toNat

def waveArchive? (a : Archive) (n : UInt16) : Option WaveArchiveEntry :=
  if n = BankSettings.noWaveArchive then none else a.waveArchives.entry? n.toNat

def player? (a : Archive) (n : UInt8) : Option PlayerSettings := a.players.entry? n.toNat

/-- The wave archives that a bank refers to, where they were read. -/
def waveArchivesOf (a : Archive) (bank : BankEntry) : List (Option WaveArchive) :=
  bank.settings.waveArchives.toList.map fun n => (a.waveArchive? n).bind (·.resource)

def liveSequences (a : Archive) : List (Nat × SequenceEntry) :=
  a.sequences.zipIdx.filterMap fun (slot, n) => slot.map fun entry => (n, entry)

/-! ## Files -/

def fileCount (a : Archive) : Nat :=
  a.sequences.liveCount + a.banks.liveCount + a.waveArchives.liveCount

def fileIds (a : Archive) : List UInt16 :=
  a.sequences.live.map (·.fileId) ++ a.banks.live.map (·.fileId)
    ++ a.waveArchives.live.map (·.fileId)

/-- A number that is above every file id in use, and no less than the length of the table. -/
def fileIdSpan (a : Archive) : Nat :=
  a.fileIds.foldl (fun span id => max span (id.toNat + 1)) a.fileTableLength

/-- File ids in the order of the slots, the first of them `n`. -/
def numberFiles {σ ρ : Type} (n : Nat) (slots : Slots (Entry σ ρ)) : Slots (Entry σ ρ) :=
  slots.mapCounted (fun n entry => { entry with fileId := n.toUInt16 }) n

/-- Numbers the files of sequences, then of banks, then of wave archives, and leaves no others. -/
def renumberFiles (a : Archive) : Archive :=
  let banks := a.sequences.liveCount
  let waveArchives := banks + a.banks.liveCount
  { a with
    sequences := numberFiles 0 a.sequences
    banks := numberFiles banks a.banks
    waveArchives := numberFiles waveArchives a.waveArchives
    fileTableLength := a.fileCount.toUInt16.toNat }

/-! ## Names -/

/-- Gives every entry without a name its placeholder for good. -/
def cleanUpSymbols (a : Archive) : Archive :=
  { a with
    sequences := a.sequences.mapLive (·.named .sequence)
    banks := a.banks.mapLive (·.named .bank)
    waveArchives := a.waveArchives.mapLive (·.named .waveArchive)
    needsSymbolCleanup := false }

end Archive

end SoundArchive
