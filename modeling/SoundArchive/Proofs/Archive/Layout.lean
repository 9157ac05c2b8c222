import SoundArchive.Proofs.Archive.RoundTrip
import SoundArchive.Proofs.Strip.FileOrder

/-!
# Where everything lies in an encoded archive

What the layout of an archive should be is said here in numbers: lengths are counted from the
slots, and every start is the end of what comes before. The encoded bytes have exactly that
layout.
-/

namespace SoundArchive

open Bytes

variable {bytes data : Bytes} {offset start : Nat}

/-! ## Numbers in the bytes -/

/-- The number that the word at `offset` stands for. -/
def Bytes.word? (bytes : Bytes) (offset : Nat) : Option Nat := (bytes.u32? offset).map (·.toNat)

theorem Bytes.At.word? {n : Nat} (h : At bytes offset (ofU32 n.toUInt32)) (hn : n < 2 ^ 32) :
    bytes.word? offset = some n := by
  rw [Bytes.word?, h.u32?, Option.map_some, toNat_toUInt32 hn]

/-! ## Lists of records -/

namespace RecordList

variable {lists : List (Slots Bytes)} {slots : Slots Bytes}

theorem getElem?_offsetsFrom {i : Nat} {slot : Option Bytes} (hslot : slots[i]? = some slot) :
    (offsetsFrom Array.size offset slots)[i]? = some
      (slot.elim 0 fun _ => (offset + recordsLength Array.size (slots.take i)).toUInt32) := by
  induction slots generalizing offset i with
  | nil => cases hslot
  | cons front rest ih =>
    cases i with
    | zero =>
      cases hslot
      cases slot <;> rfl
    | succ i =>
      cases front with
      | none => exact ih hslot
      | some record =>
        rw [offsetsFrom, List.getElem?_cons_succ, ih hslot, Nat.add_assoc]
        rfl

theorem Stored.slot {i : Nat} {slot : Option Bytes} (h : Stored bytes start offset slots)
    (hslot : slots[i]? = some slot) :
    At bytes (start + 4 + 4 * i) (ofU32
      (slot.elim 0 fun _ => (offset + recordsLength Array.size (slots.take i)).toUInt32)) := by
  have hoffset : (offsetsFrom Array.size offset slots)[i]? = _ := getElem?_offsetsFrom hslot
  obtain ⟨hi, hword⟩ := List.getElem?_eq_some_iff.1 hoffset
  have hat := h.list.right.ofU32s_getElem hi
  rwa [hword, size_ofU32] at hat

theorem Stored.record {i : Nat} {record : Bytes} (h : Stored bytes start offset slots)
    (hslot : slots[i]? = some (some record)) :
    At bytes (offset + recordsLength Array.size (slots.take i)) record := by
  obtain ⟨hi, hget⟩ := List.getElem?_eq_some_iff.1 hslot
  have hsplit : slots.live
      = Slots.live (slots.take i) ++ record :: Slots.live (slots.drop (i + 1)) := by
    have hdrop := List.drop_eq_getElem_cons hi
    rw [hget] at hdrop
    conv_lhs => rw [← List.take_append_drop i slots, Slots.live_append, hdrop]
    rfl
  have hrecords := h.records
  rw [hsplit, concat_append, concat_cons] at hrecords
  rw [recordsLength_eq]
  exact hrecords.right.left

/-- The lists of a section that starts at `base`, with all their records. Of every slot there is a
word: 0 for a hole, and for an entry where in the section its own record lies. -/
structure LieIn (data : Bytes) (base : Nat) (lists : List (Slots Bytes)) : Prop where
  starts : ∀ n < lists.length, data.word? (base + startsOffset + 4 * n) = some (listStart lists n)
  counts : ∀ n slots, lists[n]? = some slots →
    data.word? (base + listStart lists n) = some slots.length
  holes : ∀ n slots i, lists[n]? = some slots → i < slots.length →
    (data.word? (base + listStart lists n + 4 + 4 * i) = some 0 ↔ slots[i]? = some none)
  records : ∀ n slots i record, lists[n]? = some slots → slots[i]? = some (some record) →
    data.word? (base + listStart lists n + 4 + 4 * i) = some (recordStart lists n i) ∧
      At data (base + recordStart lists n i) record

/-- The length of a section of these lists. -/
def sectionLength (lists : List (Slots Bytes)) : Nat :=
  sectionHeaderLength + (lists.map length).sum + recordsLength Array.size lists.flatten

theorem size_encodeSection {tag : Tag} (hcount : lists.length ≤ 14) :
    (encodeSection tag lists).size = sectionLength lists := by
  show (sectionHeader tag _ lists ++ encodeFrom _ lists ++ concat (Slots.live lists.flatten)).size
    = sectionLength lists
  rw [Array.size_append, Array.size_append, size_sectionHeader _ _ hcount, size_encodeFrom,
    sectionLength, recordsLength_eq]

theorem at_size_of_section {tag : Tag} (h : At bytes offset (encodeSection tag lists)) :
    At bytes (offset + 4) (ofU32 (sectionLength lists).toUInt32) := by
  have hsize := h.left.left.left.left.right
  rw [foldr_length, Vector.size_toArray] at hsize
  rw [sectionLength, recordsLength_eq]
  exact hsize

theorem recordStart_eq {n : Nat} (hslots : lists[n]? = some slots) (i : Nat) :
    recordStart lists n i = recordStart lists n 0 + recordsLength Array.size (slots.take i) := by
  simp only [recordStart, hslots, Option.getD_some, recordsLength_append, List.take_zero,
    List.append_nil, Nat.add_assoc]

theorem lieIn_of_section {tag : Tag} {base : Nat} (h : At data base (encodeSection tag lists))
    (hsize : data.size < 2 ^ 32) (hcount : lists.length ≤ 14) : LieIn data base lists := by
  have hstored {n : Nat} {slots : Slots Bytes} (hslots : lists[n]? = some slots) :
      Stored (encodeSection tag lists) (listStart lists n) (recordStart lists n 0) slots := by
    obtain ⟨hn, rfl⟩ := List.getElem?_eq_some_iff.1 hslots
    exact (stored_of_section_getElem (at_self _) hcount hn).2
  have hrecord {n i : Nat} {slots : Slots Bytes} {record : Bytes}
      (hslots : lists[n]? = some slots) (hslot : slots[i]? = some (some record)) :
      data.word? (base + listStart lists n + 4 + 4 * i) = some (recordStart lists n i) ∧
        At data (base + recordStart lists n i) record := by
    have hat := h.trans ((hstored hslots).record hslot)
    have hword := h.trans ((hstored hslots).slot hslot)
    rw [← recordStart_eq hslots] at hat
    rw [Option.elim_some, ← recordStart_eq hslots, ← Nat.add_assoc, ← Nat.add_assoc] at hword
    have hbound := hat.bound
    exact ⟨hword.word? (by omega), hat⟩
  constructor
  case starts =>
    intro n hn
    have hword := h.trans (stored_of_section_getElem (at_self _) hcount hn).1
    have hbound := (h.trans (stored_of_section_getElem (at_self _) hcount hn).2.list).bound
    rw [← Nat.add_assoc] at hword
    exact hword.word? (by omega)
  case counts =>
    intro n slots hslots
    have hcount := h.trans (hstored hslots).list.left
    have hbound := (h.trans (hstored hslots).list).bound
    rw [size_encode, length] at hbound
    exact hcount.word? (by omega)
  case holes =>
    intro n slots i hslots hi
    cases hslot : slots[i]? with
    | none => exact absurd hi (Nat.not_lt.2 (List.getElem?_eq_none_iff.1 hslot))
    | some slot =>
      cases slot with
      | none =>
        have hword := h.trans ((hstored hslots).slot hslot)
        rw [← Nat.add_assoc, ← Nat.add_assoc] at hword
        exact iff_of_true (hword.word? (n := 0) (by omega)) rfl
      | some record =>
        rw [(hrecord hslots hslot).1]
        refine iff_of_false (fun hzero => ?_) (by simp)
        have hpos : 0 < sectionHeaderLength := by decide
        have hstart := Option.some.inj hzero
        unfold recordStart at hstart
        omega
  case records =>
    intro n slots i record hslots hslot
    exact hrecord hslots hslot

end RecordList

/-! ## Records of files -/

theorem FileTable.getElem?_recordsFrom (sizes : List Nat) (k : Nat) :
    (recordsFrom offset sizes)[k]? = sizes[k]?.map fun size =>
      { offset := (offset + (sizes.take k).sum).toUInt32, size := size.toUInt32 } := by
  induction sizes generalizing offset k with
  | nil => rfl
  | cons size rest ih =>
    cases k with
    | zero => rfl
    | succ k => simp [recordsFrom, ih, Nat.add_assoc]

/-! ## The sections -/

namespace Archive

variable {a : Archive}

def nameLists (a : Archive) : List (Slots Bytes) :=
  [a.symbols.sequences.mapLive Symbols.encodeName, [], a.symbols.banks.mapLive Symbols.encodeName,
    a.symbols.waveArchives.mapLive Symbols.encodeName, [], [], [], []]

def recordLists (a : Archive) : List (Slots Bytes) :=
  [a.index.sequences.mapLive Storable.encode, [], a.index.banks.mapLive Storable.encode,
    a.index.waveArchives.mapLive Storable.encode, a.players.mapLive Storable.encode, [], [], []]

/-- The length of a name with the zero behind it. -/
def nameLength (name : String) : Nat := name.length + 1

/-- The length of the names without their padding: eight lists, a word for every slot, and the
names. -/
def namesLength (a : Archive) : Nat :=
  RecordList.sectionHeaderLength + 8 * 4
    + 4 * (a.sequences.length + a.banks.length + a.waveArchives.length)
    + ((a.symbols.sequences.live ++ a.symbols.banks.live ++ a.symbols.waveArchives.live).map
        nameLength).sum

/-- The length of the index: eight lists, a word for every slot, and records of twelve bytes for
sequences and banks, of four for wave archives, and of eight for players. -/
def indexLength (a : Archive) : Nat :=
  RecordList.sectionHeaderLength + 8 * 4
    + 4 * (a.sequences.length + a.banks.length + a.waveArchives.length + a.players.length)
    + 12 * (a.sequences.liveCount + a.banks.liveCount) + 4 * a.waveArchives.liveCount
    + 8 * a.players.liveCount

def filesLength (a : Archive) : Nat := filesHeaderLength + (a.bodies.map Array.size).sum

/-- A section of an archive. -/
structure Section where
  tag : Tag
  /-- Where the header of the archive has the place of the section. -/
  position : Nat
  /-- The length that the section has by the header of the archive. -/
  length : Nat
  /-- The length that the section has by itself, which leaves its padding out. -/
  ownLength : Nat

def sections (a : Archive) : List Section :=
  (if a.hasSymbols then [⟨Symbols.tag, 16, align4 a.namesLength, a.namesLength⟩] else [])
    ++ [⟨Index.tag, 24, a.indexLength, a.indexLength⟩,
      ⟨FileTable.tag, 32, a.tableLength, a.tableLength⟩,
      ⟨filesTag, 40, a.filesLength, a.filesLength⟩]

/-- The section is at `start`, and the header says so. -/
structure Section.LiesAt (s : Section) (data : Bytes) (start : Nat) : Prop where
  place : data.word? s.position = some start
  length : data.word? (s.position + 4) = some s.length
  tag : Tag.read? data start = some s.tag
  ownLength : data.word? (start + 4) = some s.ownLength

/-- The sections follow each other from `start` to `stop`. -/
def Tiles (data : Bytes) (start : Nat) (sections : List Section) (stop : Nat) : Prop :=
  match sections with
  | [] => start = stop
  | s :: rest => s.LiesAt data start ∧ Tiles data (start + s.length) rest stop

/-- The files of an archive, behind the header of their section at `files`, and their records,
behind the header of the table at `table`. -/
structure FilesLieIn (data : Bytes) (table files : Nat) (bodies : List Bytes) : Prop where
  records : data.word? (table + 8) = some bodies.length
  count : data.word? (files + 8) = some bodies.length
  body : ∀ k body, bodies[k]? = some body →
    ∃ start, start = files + filesHeaderLength + ((bodies.take k).map Array.size).sum ∧
      data.word? (table + FileTable.headerLength + FileRecord.length * k) = some start ∧
      data.word? (table + FileTable.headerLength + FileRecord.length * k + 4) = some body.size ∧
      At data start body
  stop : files + filesHeaderLength + (bodies.map Array.size).sum = data.size

/-- The bytes have the layout of the archive. The lists and the files are where the header of the
archive says that their sections are. -/
structure HasLayout (a : Archive) (data : Bytes) : Prop where
  header : Header.read? data 0 = some (Header.standard tag data.size.toUInt32
    headerLength.toUInt16 (if a.hasSymbols then 4 else 3))
  size : data.word? 8 = some data.size
  tiles : Tiles data headerLength a.sections data.size
  nameless : a.hasSymbols = false → data.word? 16 = some 0 ∧ data.word? 20 = some 0
  padding : a.hasSymbols = true →
    At data (headerLength + a.namesLength) (zeros (align4 a.namesLength - a.namesLength))
  names : ∀ start, a.hasSymbols = true → data.word? 16 = some start →
    RecordList.LieIn data start a.nameLists
  records : ∀ start, data.word? 24 = some start → RecordList.LieIn data start a.recordLists
  files : ∀ table files, data.word? 32 = some table → data.word? 40 = some files →
    FilesLieIn data table files a.bodies

/-! ## Lengths -/

theorem size_encodeName (name : String) : (Symbols.encodeName name).size = nameLength name := by
  simp [Symbols.encodeName, nameLength, String.length_toList]

theorem recordsLength_mapLive {α : Type} {encode : α → Bytes} {size : α → Nat}
    (h : ∀ x, (encode x).size = size x) (slots : Slots α) :
    RecordList.recordsLength Array.size (slots.mapLive encode) = (slots.live.map size).sum := by
  rw [RecordList.recordsLength_eq, size_concat_eq_sum, Slots.live_mapLive, List.map_map]
  exact congrArg List.sum (List.map_congr_left fun x _ => h x)

theorem recordsLength_encode {α : Type} {encode : α → Bytes} {width : Nat}
    (h : ∀ x, (encode x).size = width) (slots : Slots α) :
    RecordList.recordsLength Array.size (slots.mapLive encode) = width * slots.liveCount := by
  rw [recordsLength_mapLive h, List.map_const', List.sum_replicate_nat, Nat.mul_comm]
  rfl

theorem sectionLength_nameLists (a : Archive) :
    RecordList.sectionLength a.nameLists = a.namesLength := by
  have hlists : (a.nameLists.map RecordList.length).sum
      = 8 * 4 + 4 * (a.sequences.length + a.banks.length + a.waveArchives.length) := by
    simp [nameLists, RecordList.length, Slots.mapLive, symbols, symbolsOf]
    omega
  have hflat : a.nameLists.flatten = a.symbols.sequences.mapLive Symbols.encodeName
      ++ (a.symbols.banks.mapLive Symbols.encodeName
        ++ a.symbols.waveArchives.mapLive Symbols.encodeName) := by
    simp [nameLists]
  rw [RecordList.sectionLength, hlists, hflat, RecordList.recordsLength_append,
    RecordList.recordsLength_append, recordsLength_mapLive size_encodeName,
    recordsLength_mapLive size_encodeName, recordsLength_mapLive size_encodeName, namesLength,
    List.map_append, List.map_append, List.sum_append, List.sum_append]
  omega

theorem size_sequenceRecord (r : FiledRecord SequenceSettings) :
    (Storable.encode r).size = 12 := by
  simp [Storable.encode]

theorem size_bankRecord (r : FiledRecord BankSettings) : (Storable.encode r).size = 12 := by
  simp [Storable.encode, ofU16s, size_concat 2]

theorem size_waveArchiveRecord (r : FiledRecord WaveArchiveSettings) :
    (Storable.encode r).size = 4 := by
  simp [Storable.encode]

theorem size_playerRecord (s : PlayerSettings) : (Storable.encode s).size = 8 := by
  simp [Storable.encode]

theorem sectionLength_recordLists (a : Archive) :
    RecordList.sectionLength a.recordLists = a.indexLength := by
  have hlists : (a.recordLists.map RecordList.length).sum
      = 8 * 4 + 4 * (a.sequences.length + a.banks.length + a.waveArchives.length
          + a.players.length) := by
    simp [recordLists, RecordList.length, Slots.mapLive, index, recordsOf]
    omega
  have hflat : a.recordLists.flatten = a.index.sequences.mapLive Storable.encode
      ++ (a.index.banks.mapLive Storable.encode ++ (a.index.waveArchives.mapLive Storable.encode
        ++ a.players.mapLive Storable.encode)) := by
    simp [recordLists]
  have hcounts : a.index.sequences.liveCount = a.sequences.liveCount ∧
      a.index.banks.liveCount = a.banks.liveCount ∧
      a.index.waveArchives.liveCount = a.waveArchives.liveCount :=
    ⟨Slots.liveCount_mapLive _ _, Slots.liveCount_mapLive _ _, Slots.liveCount_mapLive _ _⟩
  obtain ⟨hsequences, hbanks, hwaveArchives⟩ := hcounts
  rw [RecordList.sectionLength, hlists, hflat, RecordList.recordsLength_append,
    RecordList.recordsLength_append, RecordList.recordsLength_append,
    recordsLength_encode size_sequenceRecord, recordsLength_encode size_bankRecord,
    recordsLength_encode size_waveArchiveRecord, recordsLength_encode size_playerRecord,
    hsequences, hbanks, hwaveArchives, indexLength]
  omega

theorem size_symbols (a : Archive) : a.symbols.encode.size = align4 a.namesLength := by
  have hsize : (RecordList.encodeSection Symbols.tag a.nameLists).size = a.namesLength := by
    rw [RecordList.size_encodeSection (by simp [nameLists]), sectionLength_nameLists]
  have hle := le_align4 a.namesLength
  show (padded (RecordList.encodeSection Symbols.tag a.nameLists)).size = align4 a.namesLength
  rw [padded, Array.size_append, size_zeros, hsize]
  omega

theorem size_index (a : Archive) : a.index.encode.size = a.indexLength := by
  show (RecordList.encodeSection Index.tag a.recordLists).size = a.indexLength
  rw [RecordList.size_encodeSection (by simp [recordLists]), sectionLength_recordLists]

theorem size_files (a : Archive) : (encodeFiles a.bodies).size = a.filesLength := by
  simp only [encodeFiles, filesLength, filesHeaderLength, Array.size_append, Vector.size_toArray,
    size_ofU32, size_zeros, size_concat_eq_sum]

/-! ## The sections lie where they should -/

theorem Section.liesAt {s : Section}
    (hplace : Place.read? data s.position = some (placeAt start s.length))
    (htag : At data start s.tag.toArray)
    (hown : At data (start + 4) (ofU32 s.ownLength.toUInt32)) (hle : s.ownLength ≤ s.length)
    (hbound : start + s.length ≤ data.size) (hsize : data.size < 2 ^ 32) :
    s.LiesAt data start := by
  obtain ⟨hstart, hlengths⟩ : data.u32? s.position = some start.toUInt32 ∧
      data.u32? (s.position + 4) = some s.length.toUInt32 := by
    simpa [Place.read?, Option.bind_eq_some_iff, placeAt] using hplace
  constructor
  case place => rw [word?, hstart, Option.map_some, toNat_toUInt32 (by omega)]
  case length => rw [word?, hlengths, Option.map_some, toNat_toUInt32 (by omega)]
  case tag => exact Tag.read?_of_at htag
  case ownLength => exact hown.word? (by omega)

theorem size_symbolBytes (a : Archive) :
    a.symbolBytes.size = if a.hasSymbols then align4 a.namesLength else 0 := by
  unfold symbolBytes
  split
  · exact size_symbols a
  · rfl

/-- The sections lie one behind the other, up to the end of the data. -/
structure Packed (data : Bytes) (a : Archive) : Prop extends LaidOut data a where
  blob : At data a.filesStart (encodeFiles a.bodies)
  stop : a.filesStart + a.filesLength = data.size

theorem packed_encode (hnumbered : a.renumberFiles = a) (hsize : a.encode.size < 2 ^ 32) :
    Packed a.encode a where
  toLaidOut := laidOut_encode hnumbered hsize
  blob := by
    have hblob := at_self a.encode
    rw [encode_of_numbered hnumbered] at hblob ⊢
    have hright := hblob.right
    simp only [Array.size_append, size_encodeHeader, size_fileTable, Nat.zero_add] at hright
    exact hright
  stop := by
    rw [size_encode hnumbered, filesLength, size_concat_eq_sum, Nat.add_assoc]

namespace Packed

theorem liesAt_symbols (h : Packed data a) (hhas : a.hasSymbols = true) :
    Section.LiesAt ⟨Symbols.tag, 16, align4 a.namesLength, a.namesLength⟩ data headerLength := by
  have hplace := h.symbolsPlace
  have hsymbols := h.symbols
  have hsize := h.size
  rw [size_symbolBytes] at hplace
  simp only [hhas, if_true] at hplace
  simp only [symbolBytes, hhas, if_true] at hsymbols
  have hbound := hsymbols.bound
  rw [size_symbols] at hbound
  have hsection : At data headerLength (RecordList.encodeSection Symbols.tag a.nameLists) :=
    hsymbols.left
  have hown := RecordList.at_size_of_section hsection
  rw [sectionLength_nameLists] at hown
  exact Section.liesAt hplace hsection.left.left.left.left.left hown (le_align4 _) hbound
    hsize

theorem liesAt_index (h : Packed data a) :
    Section.LiesAt ⟨Index.tag, 24, a.indexLength, a.indexLength⟩ data a.indexStart := by
  have hplace := h.indexPlace
  have hsize := h.size
  have hbound := h.index.bound
  rw [size_index] at hplace hbound
  have hsection : At data a.indexStart (RecordList.encodeSection Index.tag a.recordLists) := h.index
  have hown := RecordList.at_size_of_section hsection
  rw [sectionLength_recordLists] at hown
  exact Section.liesAt hplace hsection.left.left.left.left.left hown
    (Nat.le_refl _) hbound hsize

theorem liesAt_table (h : Packed data a) :
    Section.LiesAt ⟨FileTable.tag, 32, a.tableLength, a.tableLength⟩ data a.tableStart := by
  have hsize := h.size
  have hbound := h.table.bound
  rw [size_fileTable] at hbound
  have hown := h.table.left.left.right
  rw [← FileTable.size_encode, size_fileTable, Vector.size_toArray] at hown
  exact Section.liesAt h.tablePlace h.table.left.left.left hown
    (Nat.le_refl _) hbound hsize

theorem liesAt_files (h : Packed data a) :
    Section.LiesAt ⟨filesTag, 40, a.filesLength, a.filesLength⟩ data a.filesStart := by
  have hsize := h.size
  have hbound := h.blob.bound
  have hplace := Place.read?_of_at h.header.left.left.right
  rw [size_files] at hbound hplace
  simp only [Array.size_append, Header.size_encode, Header.length, Place.size_encode,
    Nat.zero_add, Nat.reduceAdd] at hplace
  have hown := h.blob.left.left.left.right
  rw [Vector.size_toArray, size_concat_eq_sum, ← filesLength] at hown
  exact Section.liesAt hplace h.blob.left.left.left.left hown
    (Nat.le_refl _) hbound hsize

theorem tiles (h : Packed data a) : Tiles data headerLength a.sections data.size := by
  have hstart : a.indexStart = headerLength + if a.hasSymbols then align4 a.namesLength else 0 := by
    rw [indexStart, size_symbolBytes]
  have htable : a.tableStart = a.indexStart + a.indexLength := by rw [tableStart, size_index]
  have hrest : Tiles data a.indexStart [⟨Index.tag, 24, a.indexLength, a.indexLength⟩,
      ⟨FileTable.tag, 32, a.tableLength, a.tableLength⟩,
      ⟨filesTag, 40, a.filesLength, a.filesLength⟩] data.size :=
    ⟨h.liesAt_index, htable ▸ h.liesAt_table, htable ▸ h.liesAt_files, htable ▸ h.stop⟩
  unfold sections
  cases hhas : a.hasSymbols with
  | true =>
    rw [hstart, if_pos hhas] at hrest
    exact ⟨h.liesAt_symbols hhas, hrest⟩
  | false =>
    rw [hstart, hhas] at hrest
    exact hrest

theorem filesLieIn (h : Packed data a) : FilesLieIn data a.tableStart a.filesStart a.bodies := by
  have hsize := h.size
  have hstop := h.stop
  have hcount : a.bodies.length < 2 ^ 32 := by
    have hbound := h.table.bound
    rw [size_fileTable, tableLength, FileRecord.length, FileRecord.reservedLength] at hbound
    omega
  constructor
  case records =>
    have hrecords := h.table.left.right
    simp only [Array.size_append, Vector.size_toArray, size_ofU32] at hrecords
    have hlength : a.fileRecords.length = a.bodies.length := by simp [fileRecords]
    rw [hlength] at hrecords
    exact hrecords.word? hcount
  case count =>
    have hcounts := h.blob.left.left.right
    simp only [Array.size_append, Vector.size_toArray, size_ofU32] at hcounts
    exact hcounts.word? hcount
  case body =>
    intro k body hbody
    have hfile := h.files.concat_part hbody
    have hfits := hfile.bound
    have hrecord : a.fileRecords[k]? = some
        { offset := (a.filesStart + filesHeaderLength
            + ((a.bodies.take k).map Array.size).sum).toUInt32
          size := body.size.toUInt32 } := by
      rw [fileRecords, FileTable.getElem?_recordsFrom, List.getElem?_map, hbody, ← List.map_take]
      rfl
    obtain ⟨hk, hget⟩ := List.getElem?_eq_some_iff.1 hrecord
    have hat := h.table.right.concat_getElem FileRecord.length (i := k) (by simp)
      (by simpa using hk)
    simp only [Array.size_append, Vector.size_toArray, size_ofU32, List.getElem_map, hget] at hat
    exact ⟨_, rfl, hat.left.left.word? (by omega), hat.left.right.word? (by omega), hfile⟩
  case stop =>
    rw [← hstop, filesLength, Nat.add_assoc]

theorem standardHeader (h : Packed data a) :
    At data 0 (Header.standard tag data.size.toUInt32 headerLength.toUInt16
      (if a.hasSymbols then 4 else 3)).encode := by
  have hheader := h.header.left.left.left.left.left.left
  have hlength : headerLength + a.symbolBytes.size + a.index.encode.size + a.tableLength
      + (encodeFiles a.bodies).size = data.size := by
    rw [size_files]
    exact h.stop
  rwa [hlength] at hheader

theorem at_fileSize (h : Packed data a) : At data 8 (ofU32 data.size.toUInt32) := by
  have hfileSize := h.standardHeader.left.left.right
  simp only [Array.size_append, Vector.size_toArray, size_ofU32, Nat.zero_add] at hfileSize
  exact hfileSize

theorem hasLayout (h : Packed data a) : HasLayout a data := by
  have hsize := h.size
  constructor
  case header => exact Header.read?_of_at h.standardHeader
  case size => exact h.at_fileSize.word? hsize
  case tiles => exact h.tiles
  case nameless =>
    intro hhas
    have hplace := h.symbolsPlace
    rw [size_symbolBytes, hhas] at hplace
    obtain ⟨hstart, hlengths⟩ : data.u32? 16 = some 0 ∧ data.u32? 20 = some 0 := by
      simpa [Place.read?, Option.bind_eq_some_iff, placeAt] using hplace
    rw [word?, word?, hstart, hlengths]
    exact ⟨rfl, rfl⟩
  case padding =>
    intro hhas
    have hsymbols := h.symbols
    simp only [symbolBytes, hhas, if_true] at hsymbols
    have hpadding : At data headerLength
        (padded (RecordList.encodeSection Symbols.tag a.nameLists)) := hsymbols
    have hright := hpadding.right
    rwa [RecordList.size_encodeSection (by simp [nameLists]), sectionLength_nameLists] at hright
  case names =>
    intro start hhas hstart
    obtain rfl : headerLength = start :=
      Option.some.inj ((h.liesAt_symbols hhas).place.symm.trans hstart)
    have hsymbols := h.symbols
    simp only [symbolBytes, hhas, if_true] at hsymbols
    have hcount : a.nameLists.length ≤ 14 := by simp [nameLists]
    exact RecordList.lieIn_of_section hsymbols.left hsize hcount
  case records =>
    intro start hstart
    obtain rfl : a.indexStart = start := Option.some.inj (h.liesAt_index.place.symm.trans hstart)
    have hcount : a.recordLists.length ≤ 14 := by simp [recordLists]
    exact RecordList.lieIn_of_section h.index hsize hcount
  case files =>
    intro table files htable hfiles
    obtain rfl : a.tableStart = table := Option.some.inj (h.liesAt_table.place.symm.trans htable)
    obtain rfl : a.filesStart = files := Option.some.inj (h.liesAt_files.place.symm.trans hfiles)
    exact h.filesLieIn

end Packed

/-! ## The layout -/

/-- The encoded archive has exactly its layout. The entries of its lists are those of the archive,
with their files numbered in order. -/
theorem hasLayout_encode (a : Archive) (hfiles : a.fileCount < 65536)
    (hsize : a.encode.size < 2 ^ 32) :
    SameContents a a.renumberFiles ∧ a.renumberFiles.FilesInOrder ∧
      a.renumberFiles.HasLayout a.encode := by
  have hencode : a.renumberFiles.encode = a.encode := by
    rw [encode, renumberFiles_renumberFiles]
    rfl
  have hcount := (sameContents_renumberFiles a).fileCount
  refine ⟨sameContents_renumberFiles a,
    filesInOrder_of_numbered (renumberFiles_renumberFiles a) (by omega), ?_⟩
  rw [← hencode] at hsize ⊢
  exact (packed_encode (renumberFiles_renumberFiles a) hsize).hasLayout

/-- Holes in front of and behind a song with a name, a bank and waves without one, and a player. -/
theorem hasLayout_encode_with_holes :
    let song : SequenceEntry := { name := "A", isPlaceholder := false, archiveId := "x", fileId := 0
                                  body := #[0xFF, 0xFF]
                                  settings := { bank := 1, volume := 127, channelPriority := 64
                                                playerPriority := 32, player := 1, reserved := 0
                                                reservedTail := (0, 0) }
                                  resource := none }
    let bank : BankEntry := { name := "", isPlaceholder := true, archiveId := "x", fileId := 1
                              body := #[], settings := { waveArchives := #v[0, 9, 9, 9]
                                                         reserved := 0 }, resource := none }
    let waves : WaveArchiveEntry := { name := "", isPlaceholder := true, archiveId := "x"
                                      fileId := 2, body := #[1], settings := { reserved := 0 }
                                      resource := none }
    let a : Archive := { mergeCount := 0, hasSymbols := true, needsSymbolCleanup := false
                         fileTableLength := 3, sequences := [none, some song, none]
                         banks := [none, some bank], waveArchives := [some waves]
                         players := [none, some ⟨1, 0, 0xFFFF, 0x2000⟩] }
    a.fileCount < 65536 ∧ a.encode.size < 2 ^ 32 ∧ SameContents a a.renumberFiles ∧
      a.renumberFiles.FilesInOrder ∧ a.renumberFiles.HasLayout a.encode := by
  intro song bank waves a
  have hfiles : a.fileCount < 65536 := by decide
  have hsize : a.encode.size < 2 ^ 32 := by
    rw [size_encode rfl]
    decide +kernel
  exact ⟨hfiles, hsize, hasLayout_encode a hfiles hsize⟩

end Archive

end SoundArchive
