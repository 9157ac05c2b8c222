import SoundArchive.Archive.Decode

/-!
# Encoding archives

An archive is written as its header, the names if it has them, the index, the file table, and
the files one behind the other. Every entry has a file of its own.
-/

namespace SoundArchive

namespace Archive

variable {σ ρ : Type}

/-! ## What the sections hold -/

def symbolsOf (kind : EntryKind) (slots : Slots (Entry σ ρ)) : Slots String :=
  slots.mapLive (·.symbol kind)

def symbols (a : Archive) : Symbols where
  sequences := symbolsOf .sequence a.sequences
  banks := symbolsOf .bank a.banks
  waveArchives := symbolsOf .waveArchive a.waveArchives

def recordsOf (slots : Slots (Entry σ ρ)) : Slots (FiledRecord σ) :=
  slots.mapLive fun entry => { fileId := entry.fileId, settings := entry.settings }

def index (a : Archive) : Index where
  sequences := recordsOf a.sequences
  banks := recordsOf a.banks
  waveArchives := recordsOf a.waveArchives
  players := a.players

def bodies (a : Archive) : List Bytes :=
  a.sequences.live.map (·.body) ++ a.banks.live.map (·.body) ++ a.waveArchives.live.map (·.body)

/-! ## The files -/

def filesTag : Tag := .ofChars 'F' 'I' 'L' 'E'

def filesHeaderLength : Nat := 24

def encodeFiles (bodies : List Bytes) : Bytes :=
  let data := Bytes.concat bodies
  filesTag.toArray ++ Bytes.ofU32 (filesHeaderLength + data.size).toUInt32
    ++ Bytes.ofU32 bodies.length.toUInt32 ++ Bytes.zeros 12 ++ data

/-! ## The archive -/

/-- The place of a section of `length` bytes at `offset`. -/
def placeAt (offset length : Nat) : Place := ⟨offset.toUInt32, length.toUInt32⟩

/-- The header of an archive with sections of these lengths. Names of no length are left out. -/
def encodeHeader (mergeCount : UInt16) (hasSymbols : Bool)
    (symbols index table files : Nat) : Bytes :=
  let indexStart := headerLength + symbols
  let tableStart := indexStart + index
  let filesStart := tableStart + table
  (Header.standard tag (filesStart + files).toUInt32 headerLength.toUInt16
      (if hasSymbols then 4 else 3)).encode
    ++ (placeAt (if hasSymbols then headerLength else 0) symbols).encode
    ++ (placeAt indexStart index).encode ++ (placeAt tableStart table).encode
    ++ (placeAt filesStart files).encode ++ Bytes.ofU16 mergeCount ++ Bytes.zeros 14

/-- The archive with its files numbered anew. -/
def encode (a : Archive) : Bytes :=
  let a := a.renumberFiles
  let symbols := if a.hasSymbols then a.symbols.encode else #[]
  let index := a.index.encode
  let bodies := a.bodies
  let table := FileTable.headerLength + FileRecord.length * bodies.length
  let filesStart := headerLength + symbols.size + index.size + table
  let records := FileTable.recordsFrom (filesStart + filesHeaderLength) (bodies.map Array.size)
  let files := encodeFiles bodies
  encodeHeader a.mergeCount a.hasSymbols symbols.size index.size table files.size
    ++ symbols ++ index ++ FileTable.encode records ++ files

end Archive

end SoundArchive
