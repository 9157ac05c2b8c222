import SoundArchive.Archive.Basic
import SoundArchive.Archive.FileTable
import SoundArchive.Archive.Index
import SoundArchive.Archive.Symbols

/-!
# Decoding archives

The header of an archive says where its sections are. The index lists the entries, the symbols
name them, and the file table leads to their bodies.
-/

namespace SoundArchive

structure Category (ρ : Type) where
  kind : EntryKind
  decode : Bytes → Except ResourceError ρ

namespace Category

def sequences : Category Sequence := ⟨.sequence, Sequence.decode⟩

def banks : Category Bank := ⟨.bank, Bank.decode⟩

def waveArchives : Category WaveArchive := ⟨.waveArchive, WaveArchive.decode⟩

end Category

namespace Archive

def tag : Tag := .ofChars 'S' 'D' 'A' 'T'

def headerLength : Nat := 0x40

def minimumListsLength : Nat := RecordList.sectionHeaderLength

structure Files where
  data : Bytes
  records : Array FileRecord
  archiveId : String
  policy : DecodePolicy

variable {σ ρ : Type}

/-- The resource in a body. A lenient reader leaves a body with a wrong header unread. -/
def decodeResource (files : Files) (category : Category ρ) (slot : Nat) (body : Bytes) :
    Except DecodeError (Option ρ) :=
  match category.decode body with
  | .ok resource => .ok (some resource)
  | .error e =>
    if files.policy = .bestEffort ∧ e.isMissingResource then .ok none
    else .error (.resource category.kind slot e)

/-- The body of an entry, and the resource in it. For a lenient reader a file that is not in the
table is empty and unread. -/
def decodeBody (files : Files) (category : Category ρ) (slot : Nat) (fileId : UInt16) :
    Except DecodeError (Bytes × Option ρ) :=
  match files.records[fileId.toNat]? with
  | none =>
    if files.policy = .bestEffort then .ok (#[], none)
    else .error (.missingFile category.kind slot fileId)
  | some record =>
    match files.data.range? record.start record.stop with
    | none => .error (.outOfBounds (.body category.kind slot) record.start record.stop)
    | some body => do return (body, ← decodeResource files category slot body)

/-- An entry from its record and the name that is stored for it. -/
def decodeEntry (files : Files) (category : Category ρ) (slot : Nat) (name : Option String)
    (record : FiledRecord σ) : Except DecodeError (Entry σ ρ) := do
  let name := name.filter (!·.isEmpty)
  let (body, resource) ← decodeBody files category slot record.fileId
  return {
    name := name.getD (category.kind.placeholder record.fileId)
    isPlaceholder := name.isNone
    archiveId := files.archiveId
    fileId := record.fileId
    body
    settings := record.settings
    resource }

def decodeSlots (files : Files) (category : Category ρ) (names : Slots String)
    (records : Slots (FiledRecord σ)) : Except DecodeError (Slots (Entry σ ρ)) :=
  let names := names.toArray
  records.zipIdx.mapM fun (record, slot) =>
    match record with
    | none => .ok none
    | some record => some <$> decodeEntry files category slot names[slot]?.join record

def decodeSymbols (data : Bytes) (place : Place) : Except DecodeError (Option Symbols) := do
  if place.offset = 0 then return none
  let bytes ← place.readSection data Symbols.tag minimumListsLength
  some <$> Symbols.decode bytes

def verifyHeader (data : Bytes) : Except DecodeError Unit := do
  let header ← DecodeError.required (Header.read? data 0)
  match header.verify tag with
  | .ok () => return ()
  | .error e => throw (.header e)

/-- Decodes an archive, whose entries will say that they come from `archiveId`. -/
def decode (data : Bytes) (archiveId : String) (policy : DecodePolicy) :
    Except DecodeError Archive := do
  verifyHeader data
  let symbolsPlace ← DecodeError.required (Place.read? data 16)
  let indexPlace ← DecodeError.required (Place.read? data 24)
  let tablePlace ← DecodeError.required (Place.read? data 32)
  let mergeCount ← DecodeError.required (data.u16? 48)
  let symbols ← decodeSymbols data symbolsPlace
  let index ← Index.decode (← indexPlace.readSection data Index.tag minimumListsLength)
  let records ←
    FileTable.decode (← tablePlace.readSection data FileTable.tag FileTable.headerLength)
  if index.sequences.isEmpty then throw .noSequences
  let files : Files := { data, records := records.toArray, archiveId, policy }
  let names := symbols.getD { sequences := [], banks := [], waveArchives := [] }
  let sequences ← decodeSlots files .sequences names.sequences index.sequences
  let banks ← decodeSlots files .banks names.banks index.banks
  let waveArchives ← decodeSlots files .waveArchives names.waveArchives index.waveArchives
  return {
    mergeCount
    hasSymbols := symbols.isSome
    needsSymbolCleanup := false
    fileTableLength := records.length
    sequences
    banks
    waveArchives
    players := index.players }

end Archive

end SoundArchive
