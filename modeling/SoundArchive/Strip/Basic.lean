import SoundArchive.Archive.Basic
import SoundArchive.Ascending
import SoundArchive.Strip.Duplicates
import SoundArchive.Strip.Players
import SoundArchive.Strip.Rules

/-!
# Stripping archives

Of entries with the same contents only the first is kept. Banks are kept if a kept sequence
plays with them, and wave archives if a kept bank uses them. What is kept moves together.
-/

namespace SoundArchive

structure StripOptions where
  /-- Drop what the decider excludes. Otherwise only duplicates go. -/
  removeExcluded : Bool := true

structure StripSummary where
  duplicateSequences : Nat
  duplicateBanks : Nat
  duplicateWaveArchives : Nat
  excludedSequences : Nat
  /-- Entries that are gone, for whatever reason. -/
  removedSequences : Nat
  removedBanks : Nat
  removedWaveArchives : Nat
  removedPlayers : Nat
deriving DecidableEq

namespace Archive

/-! ## Duplicates -/

/-- Wave archives are equal if their bodies are. -/
def waveArchiveLeaders (a : Archive) : Leaders :=
  .ofSlots (fun x y => x.body == y.body) a.waveArchives

/-- The wave archive that stands for the one with number `n`. -/
def leadingWaveArchive (leaders : Leaders) (n : UInt16) : UInt16 :=
  if n = BankSettings.noWaveArchive then n else (leaders.leader n.toNat).toUInt16

def leadingWaveArchives (leaders : Leaders) (bank : BankEntry) : Vector UInt16 4 :=
  bank.settings.waveArchives.map (leadingWaveArchive leaders)

/-- Banks are equal if their bodies are, and the wave archives that stand for theirs. -/
def bankLeaders (a : Archive) (waveArchives : Leaders) : Leaders :=
  .ofSlots (fun x y => x.body == y.body
    && leadingWaveArchives waveArchives x == leadingWaveArchives waveArchives y) a.banks

/-- The bank that stands for the one of a sequence. -/
def leadingBank (leaders : Leaders) (sequence : SequenceEntry) : UInt16 :=
  (leaders.leader sequence.settings.bank.toNat).toUInt16

/-- Sequences are equal if their bodies are, and the banks that stand for theirs. -/
def sequenceLeaders (candidates : Slots SequenceEntry) (banks : Leaders) : Leaders :=
  .ofSlots (fun x y => x.body == y.body && leadingBank banks x == leadingBank banks y) candidates

/-! ## What is kept -/

def isExcluded (decider : Decider) (options : StripOptions) (sequence : SequenceEntry) : Bool :=
  options.removeExcluded && decider sequence.name sequence.archiveId == .excluded

def candidates (a : Archive) (decider : Decider) (options : StripOptions) :
    Slots SequenceEntry :=
  a.sequences.map (Option.filter fun sequence => !isExcluded decider options sequence)

/-- The candidates that lead themselves and have a bank. -/
def keptSequences (a : Archive) (candidates : Slots SequenceEntry) (banks sequences : Leaders) :
    List SequenceEntry :=
  candidates.zipIdx.filterMap fun (slot, n) =>
    slot.filter fun sequence =>
      sequences.leader n == n && (a.bank? (leadingBank banks sequence)).isSome

/-- The slots of the banks that stand for those of the sequences. -/
def keptBanks (leaders : Leaders) (sequences : List SequenceEntry) : List Nat :=
  ascending (sequences.map fun sequence => (leadingBank leaders sequence).toNat)

/-- The slots of the wave archives that stand for those of the banks, where there are any. -/
def keptWaveArchives (a : Archive) (leaders : Leaders) (banks : List BankEntry) : List Nat :=
  ascending (banks.flatMap fun bank =>
    (leadingWaveArchives leaders bank).toList.filterMap fun n =>
      if (a.waveArchive? n).isSome then some n.toNat else none)

/-! ## Moving -/

/-- A sequence whose bank is one of `banks`, which are kept. -/
def moveSequence (leaders : Leaders) (banks : List Nat) (movePlayer : UInt8 → UInt8)
    (sequence : SequenceEntry) : SequenceEntry :=
  { sequence with settings := { sequence.settings with
      bank := (banks.idxOf (leadingBank leaders sequence).toNat).toUInt16
      player := movePlayer sequence.settings.player } }

/-- The new number of a wave archive. One that does not exist becomes none. -/
def moveWaveArchive (leaders : Leaders) (waveArchives : List Nat) (n : UInt16) : UInt16 :=
  match waveArchives.idxOf? (leadingWaveArchive leaders n).toNat with
  | some new => new.toUInt16
  | none => BankSettings.noWaveArchive

def moveBank (leaders : Leaders) (waveArchives : List Nat) (bank : BankEntry) : BankEntry :=
  { bank with settings := { bank.settings with
      waveArchives := bank.settings.waveArchives.map (moveWaveArchive leaders waveArchives) } }

/-! ## The whole -/

/-- Keeps what the decider does not exclude, without duplicates and what nothing needs. The
files are numbered anew, and names cleaned up where that is due. -/
def strip (a : Archive) (decider : Decider) (options : StripOptions) : Archive × StripSummary :=
  let waveArchiveLeaders := a.waveArchiveLeaders
  let bankLeaders := a.bankLeaders waveArchiveLeaders
  let candidates := a.candidates decider options
  let sequenceLeaders := sequenceLeaders candidates bankLeaders
  let sequences := a.keptSequences candidates bankLeaders sequenceLeaders
  let bankSlots := keptBanks bankLeaders sequences
  let banks := bankSlots.filterMap a.banks.entry?
  let waveArchiveSlots := a.keptWaveArchives waveArchiveLeaders banks
  let waveArchives := waveArchiveSlots.filterMap a.waveArchives.entry?
  let players := keptPlayers a.players (sequences.map (·.settings.player))
  let stripped := { a with
    sequences := sequences.map fun sequence =>
      some (moveSequence bankLeaders bankSlots (movedPlayer a.players players) sequence)
    banks := banks.map fun bank => some (moveBank waveArchiveLeaders waveArchiveSlots bank)
    waveArchives := waveArchives.map some
    players := players.map some }.renumberFiles
  (if a.needsSymbolCleanup then stripped.cleanUpSymbols else stripped,
    { duplicateSequences := sequenceLeaders.duplicates
      duplicateBanks := bankLeaders.duplicates
      duplicateWaveArchives := waveArchiveLeaders.duplicates
      excludedSequences := a.sequences.liveCount - Slots.liveCount candidates
      removedSequences := a.sequences.liveCount - sequences.length
      removedBanks := a.banks.liveCount - banks.length
      removedWaveArchives := a.waveArchives.liveCount - waveArchives.length
      removedPlayers := a.players.liveCount - players.length })

end Archive

end SoundArchive
