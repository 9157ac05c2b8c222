import SoundArchive.Archive.Basic

/-!
# Merging archives

The slots of one archive are appended to those of another. Every number in an appended entry
moves up by what is in front of it.
-/

namespace SoundArchive

/-- How far the numbers in an entry move. -/
structure Shift where
  file : UInt16
  bank : UInt16
  waveArchive : UInt16
  player : Nat
deriving DecidableEq

namespace Shift

variable {σ ρ : Type}

def ofFile (s : Shift) (entry : Entry σ ρ) : Entry σ ρ :=
  { entry with fileId := entry.fileId + s.file }

/-- Numbers of players have eight bits, and what is above them becomes the last. -/
def ofPlayer (s : Shift) (n : UInt8) : UInt8 := (min (n.toNat + s.player) 0xFF).toUInt8

/-- No wave archive stays none. -/
def ofWaveArchive (s : Shift) (n : UInt16) : UInt16 :=
  if n = BankSettings.noWaveArchive then n else n + s.waveArchive

def ofSequence (s : Shift) (entry : SequenceEntry) : SequenceEntry :=
  { s.ofFile entry with
    settings := { entry.settings with
      bank := entry.settings.bank + s.bank
      player := s.ofPlayer entry.settings.player } }

def ofBank (s : Shift) (entry : BankEntry) : BankEntry :=
  { s.ofFile entry with
    settings := { entry.settings with
      waveArchives := entry.settings.waveArchives.map s.ofWaveArchive } }

end Shift

namespace Archive

/-- How far numbers move behind the entries of `a`. -/
def shift (a : Archive) : Shift where
  file := a.fileIdSpan.toUInt16
  bank := a.banks.length.toUInt16
  waveArchive := a.waveArchives.length.toUInt16
  player := a.players.length

/-- Appends the slots of `b`. If only one of the two has names, some entries need names. -/
def merge (a b : Archive) : Archive :=
  let shift := a.shift
  { mergeCount := a.mergeCount + 1
    hasSymbols := a.hasSymbols || b.hasSymbols
    needsSymbolCleanup :=
      if a.hasSymbols || b.hasSymbols then
        a.hasSymbols != b.hasSymbols || a.needsSymbolCleanup || b.needsSymbolCleanup
      else a.needsSymbolCleanup
    fileTableLength := a.fileIdSpan + b.fileIdSpan
    sequences := a.sequences ++ b.sequences.mapLive shift.ofSequence
    banks := a.banks ++ b.banks.mapLive shift.ofBank
    waveArchives := a.waveArchives ++ b.waveArchives.mapLive shift.ofFile
    players := a.players ++ b.players }

end Archive

end SoundArchive
