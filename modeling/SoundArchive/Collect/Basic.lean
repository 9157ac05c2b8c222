import SoundArchive.Collect.Instruments
import SoundArchive.Collect.Waves

/-!
# Collecting unused instruments and waves

Banks are cut down to the instruments that sequences select, and then wave archives to the waves
that the remaining instruments play. Numbers in sequences and instruments follow.
-/

namespace SoundArchive

inductive CollectError where
  | splice (slot : Nat) (cause : SpliceError)
  | bank (slot : Nat) (cause : ResourceError)
deriving DecidableEq

def CollectError.message : CollectError → String
  | splice slot _ => "Renumbering the patches of sequence " ++ toString slot ++ " failed"
  | bank slot _ => "Encoding " ++ EntryKind.bank.label ++ " " ++ toString slot ++ " failed"

structure CollectSummary where
  removedInstruments : Nat
  removedWaves : Nat
  changedSequences : Nat
  /-- Banks that stay whole because a sequence computes its patches. -/
  wholeBanks : Nat
deriving DecidableEq

/-- Puts new resources and their bodies into the entries that have any. -/
def Slots.replace {σ ρ : Type} (slots : Slots (Entry σ ρ)) (news : Slots (ρ × Bytes)) :
    Slots (Entry σ ρ) :=
  slots.zipWith (fun slot new => slot.map fun entry =>
    match new with
    | some (resource, body) => { entry with resource := some resource, body }
    | none => entry) news

namespace Archive

/-! ## Banks and sequences -/

def scanEntry (entry : SequenceEntry) : ScannedSequence :=
  { bank := entry.settings.bank
    scan := entry.resource.bind fun sequence => (scanPatches sequence.code).toOption }

def planBank (sequences : List ScannedSequence) (entry : BankEntry) (n : Nat) : BankPlan :=
  match entry.resource with
  | none => .untouched
  | some bank => .ofUsers bank (sequences.filter fun s => s.bank = n.toUInt16)

def planBanks (a : Archive) (sequences : List ScannedSequence) : BankPlans :=
  (a.banks.zipIdx.map fun (slot, n) =>
    match slot with
    | none => BankPlan.untouched
    | some entry => planBank sequences entry n).toArray

/-- The sequence in slot `n` with its patches renumbered, if any of them has a new number. -/
def newSequence (plans : BankPlans) (entry : SequenceEntry) (scan : Option PatchScan)
    (n : Nat) : Except CollectError (Option (Sequence × Bytes)) :=
  match plans.shrunk? entry.settings.bank, entry.resource, scan with
  | some bank, some sequence, some scan =>
    if Sequence.needsRenumbering bank.selection scan then
      match Sequence.renumberPatches bank.selection sequence.code scan with
      | .error e => .error (.splice n e)
      | .ok code => .ok (some (⟨code⟩, Sequence.encode ⟨code⟩))
    else .ok none
  | _, _, _ => .ok none

def newSequences (a : Archive) (plans : BankPlans) (scanned : Slots ScannedSequence) :
    Except CollectError (Slots (Sequence × Bytes)) :=
  (a.sequences.zip scanned).zipIdx.mapM fun ((slot, scanned), n) =>
    match slot with
    | none => .ok none
    | some entry => newSequence plans entry (scanned.bind (·.scan)) n

/-! ## Wave archives -/

/-- The instruments that a bank is left with, none if it was not read. -/
def remaining (plans : BankPlans) (entry : BankEntry) (n : Nat) : Option (List Instrument) :=
  match entry.resource with
  | none => none
  | some bank =>
    match plans.shrunk? n.toUInt16 with
    | some shrunk => some shrunk.instruments
    | none => some bank.instruments

def waveUsers (a : Archive) (plans : BankPlans) : List WaveUser :=
  a.banks.zipIdx.filterMap fun (slot, n) =>
    slot.map fun entry =>
      { slots := entry.settings.waveArchives, instruments := remaining plans entry n }

def shrinkWaveArchives (a : Archive) (users : List WaveUser) : Slots ShrunkWaves :=
  a.waveArchives.zipIdx.map fun (slot, n) =>
    slot.bind fun entry => entry.resource.bind fun waves => waves.shrinkFor n users

/-- The new contents of a wave archive, if they are not the old ones. -/
def newWaveArchive (slot : Option WaveArchiveEntry) (shrunk : Option ShrunkWaves) :
    Option (WaveArchive × Bytes) :=
  match slot, shrunk with
  | some entry, some s =>
    if entry.resource = some s.waves then none else some (s.waves, s.waves.encode)
  | _, _ => none

/-! ## Banks again -/

/-- The new contents of the bank in slot `n`, if its instruments or waves have changed. -/
def newBank (plans : BankPlans) (waves : Array (Option ShrunkWaves)) (entry : BankEntry)
    (n : Nat) : Except CollectError (Option (Bank × Bytes)) :=
  match remaining plans entry n with
  | none => .ok none
  | some old =>
    let new := old.map (·.mapRanges (·.renumberWave waves entry.settings.waveArchives))
    if new = old && (plans.shrunk? n.toUInt16).isNone then .ok none
    else
      match Bank.encode ⟨new⟩ with
      | .error e => .error (.bank n e)
      | .ok body => .ok (some (⟨new⟩, body))

def newBanks (a : Archive) (plans : BankPlans) (waves : Array (Option ShrunkWaves)) :
    Except CollectError (Slots (Bank × Bytes)) :=
  a.banks.zipIdx.mapM fun (slot, n) =>
    match slot with
    | none => .ok none
    | some entry => newBank plans waves entry n

/-! ## The whole -/

def lostInstruments (slot : Option BankEntry) (plan : BankPlan) : Nat :=
  match slot.bind (·.resource), plan.shrunk? with
  | some bank, some shrunk => bank.instruments.length - shrunk.instruments.length
  | _, _ => 0

def lostWaves (slot : Option WaveArchiveEntry) (shrunk : Option ShrunkWaves) : Nat :=
  match slot.bind (·.resource), shrunk with
  | some old, some s => old.waves.count - s.waves.waves.count
  | _, _ => 0

/-- Removes the instruments that no sequence selects and the waves that no instrument plays. -/
def collect (a : Archive) : Except CollectError (Archive × CollectSummary) := do
  let scanned := a.sequences.mapLive scanEntry
  let plans := a.planBanks scanned.live
  let sequences ← a.newSequences plans scanned
  let shrunkWaves := a.shrinkWaveArchives (a.waveUsers plans)
  let banks ← a.newBanks plans shrunkWaves.toArray
  let waveArchives := a.waveArchives.zipWith newWaveArchive shrunkWaves
  return ({ a with
      sequences := a.sequences.replace sequences
      banks := a.banks.replace banks
      waveArchives := a.waveArchives.replace waveArchives },
    { removedInstruments := (a.banks.zipWith lostInstruments plans.toList).foldl (· + ·) 0
      removedWaves := (a.waveArchives.zipWith lostWaves shrunkWaves).foldl (· + ·) 0
      changedSequences := sequences.liveCount
      wholeBanks := plans.toList.countP (·.isWhole) })

end Archive

end SoundArchive
