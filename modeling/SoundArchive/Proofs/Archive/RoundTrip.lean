import SoundArchive.Archive.Encode
import SoundArchive.Proofs.Archive.FileTable
import SoundArchive.Proofs.Archive.Index
import SoundArchive.Proofs.Archive.Symbols

/-! # Decoding what an archive is encoded as -/

namespace SoundArchive

open Bytes

variable {σ ρ : Type} {archiveId : String} {policy : DecodePolicy} {category : Category ρ}
  {hasSymbols : Bool} {e : Entry σ ρ} {slots : Slots (Entry σ ρ)}

/-! ## Songs -/

theorem Sequence.size_encode (s : Sequence) : s.encode.size = codeOffset + s.code.size := by
  simp [encode, Resource.size_prologue, codeOffset, Nat.add_assoc]

theorem Sequence.decode_encode {s : Sequence} (hsize : s.encode.size < 2 ^ 32) :
    decode s.encode = .ok s := by
  have hprologue : At s.encode 0 (Resource.prologue tag (codeOffset + s.code.size)) :=
    (at_self s.encode).left.left
  have hoffset := (at_self s.encode).left.right.u32?
  have hcode := (at_self s.encode).right
  simp only [Array.size_append, Resource.size_prologue, size_ofU32, Nat.zero_add] at hoffset hcode
  have hcodeOffset : codeOffset = Header.length + 12 := rfl
  rw [size_encode] at hsize
  have hlength : (codeOffset + s.code.size - Header.length).toUInt32.toNat - 12 = s.code.size := by
    rw [toNat_toUInt32 (by omega)]
    omega
  have hstart : codeOffset.toUInt32.toNat = Resource.prologueLength + 4 := rfl
  simp only [decode, Resource.readPrologue_of_at hprologue, hoffset, Resource.required_some,
    ok_bind, hlength, hstart, hcode.slice?]
  rfl

/-! ## Canonical archives -/

namespace Entry

/-- The resource is what a reader with this policy finds in the body. -/
def IsParsed (policy : DecodePolicy) (category : Category ρ) (e : Entry σ ρ) : Prop :=
  match category.decode e.body with
  | .ok resource => e.resource = some resource
  | .error cause => policy = .bestEffort ∧ cause.isMissingResource ∧ e.resource = none

/-- The name can be stored, or is the one that an entry without a name is given. -/
def IsNamed (hasSymbols : Bool) (kind : EntryKind) (e : Entry σ ρ) : Prop :=
  if hasSymbols then e.isPlaceholder = false ∧ e.name.isEmpty = false ∧ Symbols.Writable e.name
  else e.isPlaceholder = true ∧ e.name = kind.placeholder e.fileId

structure IsCanonical (archiveId : String) (policy : DecodePolicy) (hasSymbols : Bool)
    (category : Category ρ) (e : Entry σ ρ) : Prop where
  archiveId : e.archiveId = archiveId
  parsed : e.IsParsed policy category
  named : e.IsNamed hasSymbols category.kind

end Entry

/-- An archive as it is decoded: its files are numbered in order, and its entries have no more
than their bodies and the names that are stored say. -/
structure Archive.IsCanonical (archiveId : String) (policy : DecodePolicy) (a : Archive) :
    Prop where
  numbered : a.renumberFiles = a
  clean : a.needsSymbolCleanup = false
  sequences : ∀ e ∈ a.sequences.live, e.IsCanonical archiveId policy a.hasSymbols .sequences
  banks : ∀ e ∈ a.banks.live, e.IsCanonical archiveId policy a.hasSymbols .banks
  waveArchives :
    ∀ e ∈ a.waveArchives.live, e.IsCanonical archiveId policy a.hasSymbols .waveArchives

namespace Archive

/-! ## Files -/

/-- The file id of an entry is its place among the bodies. -/
theorem body_of_fileId (front : List Bytes) (hnumbered : numberFiles front.length slots = slots)
    (hroom : front.length + slots.liveCount ≤ 65536) (he : e ∈ slots.live) (back : List Bytes) :
    (front ++ slots.live.map (·.body) ++ back)[e.fileId.toNat]? = some e.body := by
  induction slots generalizing front with
  | nil => cases he
  | cons slot rest ih =>
    cases slot with
    | none => exact ih front (List.cons.inj hnumbered).2 hroom he
    | some first =>
      obtain ⟨hfirst, hrest⟩ := List.cons.inj hnumbered
      have hid : first.fileId = front.length.toUInt16 :=
        congrArg Entry.fileId (Option.some.inj hfirst).symm
      have hlive : Slots.live (some first :: rest) = first :: Slots.live rest := rfl
      rw [Slots.liveCount, hlive, List.length_cons] at hroom
      rw [hlive] at he ⊢
      rcases List.mem_cons.1 he with rfl | he
      · have hnat : e.fileId.toNat = front.length := by
          rw [hid, Nat.toUInt16_eq, UInt16.toNat_ofNat', Nat.mod_eq_of_lt (by omega)]
        simp [hnat]
      · have hstep : (front ++ [first.body]).length = front.length + 1 := by simp
        have hbody := ih (front ++ [first.body]) (by rw [hstep]; exact hrest)
          (by rw [hstep, Slots.liveCount]; omega) he
        simpa using hbody

theorem decodeResource_of_isParsed {files : Files} {slot : Nat} (hpolicy : files.policy = policy)
    (he : e.IsParsed policy category) :
    decodeResource files category slot e.body = .ok e.resource := by
  cases hdecode : category.decode e.body with
  | ok resource =>
    simp only [Entry.IsParsed, hdecode] at he
    simp only [decodeResource, hdecode, he]
  | error cause =>
    simp only [Entry.IsParsed, hdecode] at he
    obtain ⟨hbest, hmissing, hnone⟩ := he
    simp only [decodeResource, hdecode, hpolicy, hbest, hmissing, and_self, if_true, hnone]

/-- The files of `e` are where its file id says. -/
def Filed (files : Files) (e : Entry σ ρ) : Prop :=
  ∃ record, files.records[e.fileId.toNat]? = some record ∧
    files.data.range? record.start record.stop = some e.body

theorem decodeBody_of_filed {files : Files} (slot : Nat) (hpolicy : files.policy = policy)
    (he : e.IsParsed policy category) (hfiled : Filed files e) :
    decodeBody files category slot e.fileId = .ok (e.body, e.resource) := by
  obtain ⟨record, hrecord, hrange⟩ := hfiled
  simp [decodeBody, hrecord, hrange, decodeResource_of_isParsed hpolicy he, pure, Except.pure]

/-! ## Entries -/

theorem decodeEntry_of_isCanonical {files : Files} (slot : Nat)
    (hpolicy : files.policy = policy) (hid : files.archiveId = archiveId)
    (he : e.IsCanonical archiveId policy hasSymbols category) (hfiled : Filed files e) :
    decodeEntry files category slot (if hasSymbols then some (e.symbol category.kind) else none)
      { fileId := e.fileId, settings := e.settings } = .ok e := by
  obtain ⟨harchive, hparsed, hnamed⟩ := he
  have hbody := decodeBody_of_filed slot hpolicy hparsed hfiled
  cases hasSymbols with
  | true =>
    obtain ⟨hplaceholder, hname, _⟩ : _ ∧ _ ∧ _ := hnamed
    have hsymbol : e.symbol category.kind = e.name := by
      simp [Entry.symbol, Entry.lacksName, hplaceholder, hname]
    have hstored : (some e.name).filter (fun name => !name.isEmpty) = some e.name := by
      simp [hname]
    simp only [if_true, hsymbol, decodeEntry, hstored, hbody, hid, ← harchive, ok_bind]
    cases e
    simp_all [pure, Except.pure]
  | false =>
    obtain ⟨hplaceholder, hname⟩ : _ ∧ _ := hnamed
    have hnone : (none : Option String).filter (fun name => !name.isEmpty) = none := rfl
    simp only [decodeEntry, hbody, hid, ← harchive, ok_bind]
    cases e
    simp_all [pure, Except.pure]

theorem decodeSlots_of_isCanonical {files : Files} (hpolicy : files.policy = policy)
    (hid : files.archiveId = archiveId)
    (hslots : ∀ e ∈ slots.live, e.IsCanonical archiveId policy hasSymbols category)
    (hfiled : ∀ e ∈ slots.live, Filed files e) :
    decodeSlots files category (if hasSymbols then symbolsOf category.kind slots else [])
      (recordsOf slots) = .ok slots := by
  refine mapM_eq_pure (List.forall₂_iff_get.2 ⟨by simp [recordsOf, Slots.mapLive], ?_⟩)
  intro i hi hi'
  have hname : (if hasSymbols then symbolsOf category.kind slots else [])[i]?.join
      = if hasSymbols then slots[i].map (·.symbol category.kind) else none := by
    cases hasSymbols <;> simp [symbolsOf, Slots.mapLive, hi']
  simp only [List.get_eq_getElem, List.getElem_zipIdx, Nat.zero_add, List.getElem?_toArray, hname,
    recordsOf, Slots.mapLive, List.getElem_map]
  cases hslot : slots[i] with
  | none => rfl
  | some e =>
    have he : e ∈ slots.live := List.mem_filterMap.2 ⟨some e, hslot ▸ List.getElem_mem hi', rfl⟩
    have hentry := decodeEntry_of_isCanonical i hpolicy hid (hslots e he) (hfiled e he)
    simp only [Option.map_some, hentry]
    rfl

/-! ## The layout -/

variable {a : Archive} {data : Bytes}

def symbolBytes (a : Archive) : Bytes := if a.hasSymbols then a.symbols.encode else #[]

def indexStart (a : Archive) : Nat := headerLength + a.symbolBytes.size

def tableStart (a : Archive) : Nat := a.indexStart + a.index.encode.size

def tableLength (a : Archive) : Nat :=
  FileTable.headerLength + FileRecord.length * a.bodies.length

def filesStart (a : Archive) : Nat := a.tableStart + a.tableLength

def fileRecords (a : Archive) : List FileRecord :=
  FileTable.recordsFrom (a.filesStart + filesHeaderLength) (a.bodies.map Array.size)

/-- Every part of an archive lies where the header and the file table say. -/
structure LaidOut (data : Bytes) (a : Archive) : Prop where
  size : data.size < 2 ^ 32
  header : At data 0 (encodeHeader a.mergeCount a.hasSymbols a.symbolBytes.size
    a.index.encode.size a.tableLength (encodeFiles a.bodies).size)
  symbols : At data headerLength a.symbolBytes
  index : At data a.indexStart a.index.encode
  table : At data a.tableStart (FileTable.encode a.fileRecords)
  files : At data (a.filesStart + filesHeaderLength) (concat a.bodies)

theorem size_fileTable (a : Archive) : (FileTable.encode a.fileRecords).size = a.tableLength := by
  simp [FileTable.size_encode, fileRecords, tableLength]

@[simp] theorem size_encodeHeader (mergeCount : UInt16) (hasSymbols : Bool)
    (symbols index table files : Nat) :
    (encodeHeader mergeCount hasSymbols symbols index table files).size = headerLength := by
  simp [encodeHeader, headerLength, Header.size_encode, Header.length]

theorem encode_of_numbered (hnumbered : a.renumberFiles = a) :
    a.encode = encodeHeader a.mergeCount a.hasSymbols a.symbolBytes.size a.index.encode.size
      a.tableLength (encodeFiles a.bodies).size ++ a.symbolBytes ++ a.index.encode
      ++ FileTable.encode a.fileRecords ++ encodeFiles a.bodies := by
  rw [encode, hnumbered]
  rfl

theorem size_encode (hnumbered : a.renumberFiles = a) :
    a.encode.size = a.filesStart + filesHeaderLength + (concat a.bodies).size := by
  rw [encode_of_numbered hnumbered]
  simp [size_fileTable, encodeFiles, filesHeaderLength, filesStart, tableStart, indexStart]
  omega

theorem laidOut_encode (hnumbered : a.renumberFiles = a) (hsize : a.encode.size < 2 ^ 32) :
    LaidOut a.encode a := by
  have hencode := at_self a.encode
  rw [encode_of_numbered hnumbered] at hencode hsize ⊢
  have hsymbols := hencode.left.left.left.right
  have hindex := hencode.left.left.right
  have htable := hencode.left.right
  have hfiles := hencode.right.right
  simp only [Array.size_append, size_encodeHeader, Nat.zero_add] at hsymbols hindex
  simp only [Array.size_append, size_encodeHeader, size_fileTable, Nat.zero_add] at htable hfiles
  exact ⟨hsize, hencode.left.left.left.left, hsymbols, hindex, htable, hfiles⟩

/-! ## The header -/

theorem LaidOut.verifyHeader (h : LaidOut data a) : verifyHeader data = .ok () := by
  have hheader := Header.read?_of_at h.header.left.left.left.left.left.left
  simp [Archive.verifyHeader, hheader, Header.verify, Header.standard]
  rfl

theorem LaidOut.symbolsPlace (h : LaidOut data a) : Place.read? data 16 =
    some (placeAt (if a.hasSymbols then headerLength else 0) a.symbolBytes.size) := by
  have hplace := Place.read?_of_at h.header.left.left.left.left.left.right
  simpa only [Header.size_encode, Header.length, Nat.zero_add] using hplace

theorem LaidOut.indexPlace (h : LaidOut data a) :
    Place.read? data 24 = some (placeAt a.indexStart a.index.encode.size) := by
  have hplace := Place.read?_of_at h.header.left.left.left.left.right
  rw [indexStart]
  simp only [Array.size_append, Header.size_encode, Header.length, Place.size_encode,
    Nat.zero_add, Nat.reduceAdd] at hplace
  exact hplace

theorem LaidOut.tablePlace (h : LaidOut data a) :
    Place.read? data 32 = some (placeAt a.tableStart a.tableLength) := by
  have hplace := Place.read?_of_at h.header.left.left.left.right
  rw [tableStart, indexStart]
  simp only [Array.size_append, Header.size_encode, Header.length, Place.size_encode,
    Nat.zero_add, Nat.reduceAdd] at hplace
  exact hplace

theorem LaidOut.mergeCount (h : LaidOut data a) : data.u16? 48 = some a.mergeCount := by
  have hcount := h.header.left.right.u16?
  simpa only [Array.size_append, Header.size_encode, Header.length, Place.size_encode,
    Nat.zero_add, Nat.reduceAdd] using hcount

/-! ## The sections -/

theorem readSection_placeAt {start length : Nat} {tag : Tag} {bytes : Bytes} (minimum : Nat)
    (h : At data start bytes) (hsize : data.size < 2 ^ 32) (hlength : length = bytes.size)
    (hminimum : minimum ≤ bytes.size) (htag : At bytes 0 tag.toArray) :
    (placeAt start length).readSection data tag minimum = .ok bytes := by
  have hbound := h.bound
  subst hlength
  refine Place.readSection_of_at ?_ (toNat_toUInt32 (by omega)) hminimum htag
  rw [placeAt, toNat_toUInt32 (by omega)]
  exact h

theorem symbols_storable (hsequences : ∀ e ∈ a.sequences.live, e.IsNamed true .sequence)
    (hbanks : ∀ e ∈ a.banks.live, e.IsNamed true .bank)
    (hwaveArchives : ∀ e ∈ a.waveArchives.live, e.IsNamed true .waveArchive) :
    a.symbols.Storable := by
  have hwritable {σ ρ : Type} (kind : EntryKind) (slots : Slots (Entry σ ρ))
      (hslots : ∀ e ∈ slots.live, e.IsNamed true kind) :
      ∀ name ∈ (symbolsOf kind slots).live, Symbols.Writable name := by
    intro name hname
    obtain ⟨_, hmem, rfl⟩ := List.mem_filterMap.1 hname
    obtain ⟨slot, hslot, hsymbol⟩ := List.mem_map.1 hmem
    obtain ⟨e, rfl, rfl⟩ := Option.map_eq_some_iff.1 hsymbol
    obtain ⟨hplaceholder, hname, hwritable⟩ : _ ∧ _ ∧ _ :=
      hslots e (List.mem_filterMap.2 ⟨some e, hslot, rfl⟩)
    simpa [Entry.symbol, Entry.lacksName, hplaceholder, hname] using hwritable
  intro names hnames
  rcases List.mem_cons.1 hnames with rfl | hnames
  · exact hwritable .sequence a.sequences hsequences
  rcases List.mem_cons.1 hnames with rfl | hnames
  · exact hwritable .bank a.banks hbanks
  · obtain rfl := List.mem_singleton.1 hnames
    exact hwritable .waveArchive a.waveArchives hwaveArchives

theorem IsCanonical.storable (ha : a.IsCanonical archiveId policy) (hhas : a.hasSymbols = true) :
    a.symbols.Storable :=
  symbols_storable (fun e he => hhas ▸ (ha.sequences e he).named)
    (fun e he => hhas ▸ (ha.banks e he).named) (fun e he => hhas ▸ (ha.waveArchives e he).named)

/-- The names that are stored with an archive. -/
def storedSymbols (a : Archive) : Option Symbols := if a.hasSymbols then some a.symbols else none

theorem LaidOut.decodeSymbols (h : LaidOut data a)
    (hnames : a.hasSymbols = true → a.symbols.Storable) :
    decodeSymbols data (placeAt (if a.hasSymbols then headerLength else 0) a.symbolBytes.size)
      = .ok a.storedSymbols := by
  have hsymbols := h.symbols
  unfold symbolBytes at hsymbols ⊢
  unfold storedSymbols
  cases hhas : a.hasSymbols with
  | false => rfl
  | true =>
    simp only [hhas, if_true] at hsymbols ⊢
    have hbound := hsymbols.bound
    have hsize := h.size
    have hsection : At a.symbols.encode 0 (RecordList.encodeSection Symbols.tag _) :=
      (at_self a.symbols.encode).left
    have hread := readSection_placeAt minimumListsLength hsymbols hsize rfl
      (RecordList.sectionHeaderLength_le (by simp) hsection)
      (RecordList.at_tag_of_section hsection)
    have hplace : (placeAt headerLength a.symbols.encode.size).offset ≠ 0 :=
      show headerLength.toUInt32 ≠ 0 by decide
    have hdecode := Symbols.decode_encode (hnames hhas) (by omega)
    rw [Archive.decodeSymbols, if_neg hplace]
    simp [hread, hdecode]

theorem LaidOut.readIndex (h : LaidOut data a) :
    (placeAt a.indexStart a.index.encode.size).readSection data Index.tag minimumListsLength
      = .ok a.index.encode := by
  have hsection : At a.index.encode 0 (RecordList.encodeSection Index.tag _) :=
    at_self a.index.encode
  exact readSection_placeAt minimumListsLength h.index h.size rfl
    (RecordList.sectionHeaderLength_le (by simp) hsection) (RecordList.at_tag_of_section hsection)

theorem LaidOut.decodeIndex (h : LaidOut data a) : Index.decode a.index.encode = .ok a.index := by
  have hbound := h.index.bound
  have hsize := h.size
  exact Index.decode_encode (by omega)

theorem LaidOut.readTable (h : LaidOut data a) :
    (placeAt a.tableStart a.tableLength).readSection data FileTable.tag FileTable.headerLength
      = .ok (FileTable.encode a.fileRecords) := by
  have htag : At (FileTable.encode a.fileRecords) 0 FileTable.tag.toArray :=
    (at_self _).left.left.left
  exact readSection_placeAt FileTable.headerLength h.table h.size (size_fileTable a).symm
    (by rw [FileTable.size_encode]; omega) htag

theorem LaidOut.decodeTable (h : LaidOut data a) :
    FileTable.decode (FileTable.encode a.fileRecords) = .ok a.fileRecords := by
  have hbound := h.table.bound
  have hsize := h.size
  exact FileTable.decode_encode (by omega)

theorem LaidOut.filed (h : LaidOut data a) (hnumbered : a.renumberFiles = a)
    (hfiles : a.fileCount < 65536) (files : Files) (hdata : files.data = data)
    (hrecords : files.records = a.fileRecords.toArray) :
    (∀ e ∈ a.sequences.live, Filed files e) ∧ (∀ e ∈ a.banks.live, Filed files e) ∧
      ∀ e ∈ a.waveArchives.live, Filed files e := by
  have hfile {id : UInt16} {body : Bytes} (hbody : a.bodies[id.toNat]? = some body) :
      ∃ record, files.records[id.toNat]? = some record ∧
        files.data.range? record.start record.stop = some body := by
    rw [hdata, hrecords, List.getElem?_toArray]
    exact FileTable.range?_recordsFrom h.files h.size hbody
  have hroom := hfiles
  unfold fileCount at hroom
  have hsequences (e : SequenceEntry) (he : e ∈ a.sequences.live) :=
    body_of_fileId [] (congrArg Archive.sequences hnumbered) (by simp; omega) he
      (a.banks.live.map (·.body) ++ a.waveArchives.live.map (·.body))
  have hbanks (e : BankEntry) (he : e ∈ a.banks.live) :=
    body_of_fileId (a.sequences.live.map (·.body))
      (by rw [List.length_map]; exact congrArg Archive.banks hnumbered)
      (by rw [List.length_map, ← Slots.liveCount]; omega) he (a.waveArchives.live.map (·.body))
  have hwaveArchives (e : WaveArchiveEntry) (he : e ∈ a.waveArchives.live) :=
    body_of_fileId (a.sequences.live.map (·.body) ++ a.banks.live.map (·.body))
      (by
        rw [List.length_append, List.length_map, List.length_map]
        exact congrArg Archive.waveArchives hnumbered)
      (by
        rw [List.length_append, List.length_map, List.length_map, ← Slots.liveCount,
          ← Slots.liveCount]
        omega) he []
  refine ⟨fun e he => hfile ?_, fun e he => hfile (hbanks e he), fun e he => hfile ?_⟩
  · simpa [bodies] using hsequences e he
  · simpa [bodies] using hwaveArchives e he

/-! ## The archive -/

/-- What is made of the sections once they are read. -/
def decodeSections (files : Files) (mergeCount : UInt16) (symbols : Option Symbols)
    (index : Index) : Except DecodeError Archive := do
  let names := symbols.getD { sequences := [], banks := [], waveArchives := [] }
  let sequences ← decodeSlots files .sequences names.sequences index.sequences
  let banks ← decodeSlots files .banks names.banks index.banks
  let waveArchives ← decodeSlots files .waveArchives names.waveArchives index.waveArchives
  return {
    mergeCount
    hasSymbols := symbols.isSome
    needsSymbolCleanup := false
    fileTableLength := files.records.size
    sequences
    banks
    waveArchives
    players := index.players }

theorem LaidOut.decode_eq (h : LaidOut data a) (hnames : a.hasSymbols = true → a.symbols.Storable)
    (hsequences : a.sequences ≠ []) :
    decode data archiveId policy
      = decodeSections { data, records := a.fileRecords.toArray, archiveId, policy } a.mergeCount
          a.storedSymbols a.index := by
  have hindex : a.index.sequences.isEmpty = false := by
    simpa [Archive.index, recordsOf, Slots.mapLive] using hsequences
  simp only [decode, h.verifyHeader, h.symbolsPlace, h.indexPlace, h.tablePlace, h.mergeCount,
    h.decodeSymbols hnames, h.readIndex, h.decodeIndex, h.readTable, h.decodeTable,
    DecodeError.required_some, ok_bind, hindex, Bool.false_eq_true, if_false]
  rfl

theorem length_fileRecords (hnumbered : a.renumberFiles = a) (hfiles : a.fileCount < 65536) :
    a.fileRecords.length = a.fileTableLength := by
  have hcount : a.fileCount.toUInt16.toNat = a.fileTableLength :=
    congrArg Archive.fileTableLength hnumbered
  rw [Nat.toUInt16_eq, UInt16.toNat_ofNat', Nat.mod_eq_of_lt hfiles] at hcount
  simp [fileRecords, bodies, ← hcount, fileCount, Slots.liveCount, Nat.add_assoc]

theorem LaidOut.decode_of_isCanonical (h : LaidOut data a) (ha : a.IsCanonical archiveId policy)
    (hsequences : a.sequences ≠ []) (hfiles : a.fileCount < 65536) :
    decode data archiveId policy = .ok a := by
  have hnames : a.storedSymbols.getD { sequences := [], banks := [], waveArchives := [] } =
      { sequences := if a.hasSymbols then symbolsOf Category.sequences.kind a.sequences else []
        banks := if a.hasSymbols then symbolsOf Category.banks.kind a.banks else []
        waveArchives :=
          if a.hasSymbols then symbolsOf Category.waveArchives.kind a.waveArchives else [] } := by
    unfold storedSymbols
    cases a.hasSymbols <;> rfl
  obtain ⟨hfiledSequences, hfiledBanks, hfiledWaveArchives⟩ := h.filed ha.numbered hfiles
    { data, records := a.fileRecords.toArray, archiveId, policy } rfl rfl
  have hreadSequences := decodeSlots_of_isCanonical rfl rfl ha.sequences hfiledSequences
  have hreadBanks := decodeSlots_of_isCanonical rfl rfl ha.banks hfiledBanks
  have hreadWaveArchives := decodeSlots_of_isCanonical rfl rfl ha.waveArchives hfiledWaveArchives
  have hsome : a.storedSymbols.isSome = a.hasSymbols := by
    unfold storedSymbols
    cases a.hasSymbols <;> rfl
  rw [h.decode_eq ha.storable hsequences]
  simp only [decodeSections, hnames, Archive.index, hreadSequences, hreadBanks, hreadWaveArchives,
    ok_bind, List.size_toArray, length_fileRecords ha.numbered hfiles, hsome, ← ha.clean]
  rfl

theorem decode_encode_of_isCanonical (ha : a.IsCanonical archiveId policy)
    (hsequences : a.sequences ≠ [])
    (hfiles : a.fileCount < 65536) (hsize : a.encode.size < 2 ^ 32) :
    decode a.encode archiveId policy = .ok a :=
  (laidOut_encode ha.numbered hsize).decode_of_isCanonical ha hsequences hfiles

/-- Holes in every list, a name, and a player. -/
theorem decode_encode_with_holes :
    let song : SequenceEntry := { name := "A", isPlaceholder := false, archiveId := "x", fileId := 0
                                  body := Sequence.encode ⟨#[0xFF]⟩
                                  settings := { bank := 1, volume := 127, channelPriority := 64
                                                playerPriority := 32, player := 0, reserved := 0
                                                reservedTail := (0, 0) }
                                  resource := some ⟨#[0xFF]⟩ }
    let a : Archive := { mergeCount := 0, hasSymbols := true, needsSymbolCleanup := false
                         fileTableLength := 1, sequences := [none, some song, none], banks := [none]
                         waveArchives := [], players := [none, some ⟨1, 0, 0xFFFF, 0x2000⟩] }
    a.IsCanonical "x" .failHard ∧ a.sequences ≠ [] ∧ a.fileCount < 65536 ∧
      a.encode.size < 2 ^ 32 ∧ decode a.encode "x" .failHard = .ok a := by
  intro song a
  have hsong : song.IsCanonical "x" .failHard true .sequences := by
    refine ⟨rfl, ?_, rfl, rfl, ?_⟩
    · have hdecode : Sequence.decode (Sequence.encode ⟨#[0xFF]⟩) = .ok ⟨#[0xFF]⟩ := by
        decide +kernel
      simp [Entry.IsParsed, Category.sequences, hdecode, song]
    · simp [Symbols.Writable, song]
  have ha : a.IsCanonical "x" .failHard := by
    refine ⟨rfl, rfl, ?_, ?_, ?_⟩
    · intro e he
      obtain rfl : e = song := by simpa [a, Slots.live] using he
      exact hsong
    · intro e he
      simp [a, Slots.live] at he
    · intro e he
      simp [a, Slots.live] at he
  have hsize : a.encode.size < 2 ^ 32 := by
    rw [size_encode rfl]
    decide +kernel
  have hfiles : a.fileCount < 65536 := by decide
  exact ⟨ha, by simp [a], hfiles, hsize, decode_encode_of_isCanonical ha (by simp [a]) hfiles hsize⟩

end Archive

end SoundArchive
