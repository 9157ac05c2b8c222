import SoundArchive.Proofs.Bank.Ranges

/-!
# Writing a bank that was read, and reading it back

Spans are not written: what is read back has the spans that its place gives it. Everything that
was read comes back, but for note tables without a range, for which a range too many is announced.
-/

namespace SoundArchive

open Bytes

variable {body : Bytes} {offset : Nat} {i : Instrument} {low : UInt8} {ranges : List KeyRange}

/-! ## Instruments that were read -/

namespace Instrument

/-- The spans of so many ranges of a note table. -/
def tableSpans (low : UInt8) (count : Nat) : List (UInt8 × UInt8) :=
  (List.range count).map fun i => (low + i.toUInt8, low + i.toUInt8)

/-- An instrument that was read: its ranges have the spans that their place gives them. -/
def IsDecoded : Instrument → Prop
  | empty => True
  | single r => r.span = (0, 127) ∧ ∃ record : UInt8, r.record = record.toUInt16 ∧
      record ≠ 0 ∧ record ≠ tableRecord ∧ record ≠ splitRecord
  | noteTable low ranges =>
    ranges.map KeyRange.span = tableSpans low ranges.length ∧ ranges.length < 256
  | keySplit ranges =>
    ranges.map KeyRange.span = regionSpans 0 (ranges.map (·.highNote)) ∧
      ranges.length ≤ splitRegions

theorem isDecoded_of_readTable? (h : readTable? body offset = some i) : i.IsDecoded := by
  simp only [readTable?, Option.bind_eq_bind, Option.bind_eq_some_iff, Option.pure_def,
    Option.some.injEq] at h
  obtain ⟨low, -, high, -, ranges, hranges, rfl⟩ := h
  have hall := mapM_eq_some_iff.1 hranges
  have hlength : ranges.length = (high - low + 1).toNat := by
    rw [← hall.length_eq, List.length_range]
  have hspans : (List.range (high - low + 1).toNat).map _ = ranges.map KeyRange.span :=
    map_eq_map_of_forall₂ (hall.imp fun _ _ hread => (KeyRange.span_of_readWithRecord? hread).symm)
  refine ⟨?_, hlength ▸ UInt8.toNat_lt _⟩
  rw [← hspans, tableSpans, hlength]

theorem isDecoded_of_readSplit? (h : readSplit? body offset = some i) : i.IsDecoded := by
  simp only [readSplit?, Option.bind_eq_bind, Option.bind_eq_some_iff, Option.pure_def,
    Option.some.injEq] at h
  obtain ⟨regions, hregions, ranges, hranges, rfl⟩ := h
  have hspans : (regionSpans 0 regions.toList).zipIdx.map Prod.fst = ranges.map KeyRange.span :=
    map_eq_map_of_forall₂ ((mapM_eq_some_iff.1 hranges).imp fun _ _ hread =>
      (KeyRange.span_of_readWithRecord? hread).symm)
  rw [List.zipIdx_map_fst] at hspans
  have hnotes : ranges.map (·.highNote) = (regionSpans 0 regions.toList).map (·.2) := by
    rw [hspans, List.map_map]
    rfl
  have hcount : regions.toList.length = splitRegions := size_of_slice? hregions
  refine ⟨?_, ?_⟩
  · have hpadded := regionSpans_padded 0 regions.toList 0
    rw [List.replicate_zero, List.append_nil] at hpadded
    rw [hnotes, hpadded, hspans]
  · have hle := regionSpans_length_le 0 regions.toList
    rw [hspans, List.length_map, hcount] at hle
    exact hle

theorem isDecoded_of_read? {record : UInt8} (h : read? body offset record = some i) :
    i.IsDecoded := by
  rw [read?] at h
  split at h
  · cases h
    trivial
  · next hrecord =>
    split at h
    · exact isDecoded_of_readTable? h
    · next htable =>
      split at h
      · exact isDecoded_of_readSplit? h
      · next hsplit =>
        obtain ⟨r, hread, rfl⟩ := Option.map_eq_some_iff.1 h
        obtain ⟨hspan, hr⟩ := KeyRange.span_of_read? hread
        exact ⟨hspan, record, hr, hrecord, htable, hsplit⟩

/-! ## Reading back -/

theorem count_of_last {count : Nat} (hpos : 0 < count) (hlt : count < 256) :
    (low + (count - 1).toUInt8 - low + 1).toNat = count := by
  have hlast : low + (count - 1).toUInt8 - low + 1 = (count - 1).toUInt8 + 1 := by
    rw [UInt8.add_comm low, UInt8.add_sub_cancel]
  rw [hlast, UInt8.toNat_add]
  simp
  omega

theorem getLast?_tableSpans (low : UInt8) {count : Nat} (hpos : 0 < count) :
    (tableSpans low count).getLast?
      = some (low + (count - 1).toUInt8, low + (count - 1).toUInt8) := by
  simp [tableSpans, List.getLast?_range, Nat.ne_of_gt hpos]

theorem readTable?_of_at (h : At body offset (encode (.noteTable low ranges)))
    (hdecoded : (noteTable low ranges).IsDecoded) (hranges : ranges ≠ []) :
    readTable? body offset = some (.noteTable low ranges) := by
  obtain ⟨hspans, hlt⟩ := hdecoded
  have hpos := List.length_pos_iff.2 hranges
  have hlast : (ranges.getLast?.map (·.highNote)).getD low = low + (ranges.length - 1).toUInt8 := by
    have hspan := getLast?_tableSpans low hpos
    rw [← hspans, List.getLast?_map] at hspan
    obtain ⟨r, hr, hspan⟩ := Option.map_eq_some_iff.1 hspan
    rw [hr]
    exact congrArg Prod.snd hspan
  have hlow : body[offset]? = some low := h.left.getElem? (i := 0) (by simp)
  have hhigh : body[offset + 1]? = some (low + (ranges.length - 1).toUInt8) :=
    (h.left.getElem? (i := 1) (by simp)).trans (congrArg some hlast)
  have hread : (List.range ranges.length).mapM (fun i => KeyRange.readWithRecord? body
      (offset + 2 + i * recordedLength) (low + i.toUInt8) (low + i.toUInt8)) = some ranges := by
    refine mapM_eq_some_iff.2 (forall₂_range fun n hn => ?_)
    have hspan : ranges[n].span = (low + n.toUInt8, low + n.toUInt8) := by
      have hnth := congrArg (·[n]?) hspans
      simpa [tableSpans, hn] using hnth
    have hrange := readWithRecord?_of_at_concat h.right hn
    rwa [show ranges[n].lowNote = _ from congrArg Prod.fst hspan,
      show ranges[n].highNote = _ from congrArg Prod.snd hspan] at hrange
  simp only [readTable?, hlow, hhigh, Option.bind_eq_bind, Option.bind_some,
    count_of_last hpos hlt, hread, Option.pure_def]

/-- A table without ranges is written as one that ends at the note it begins at. -/
theorem readTable?_of_empty (h : At body offset (encode (.noteTable low []))) :
    readTable? body offset ≠ some (.noteTable low []) := by
  intro hread
  have hlow : body[offset]? = some low := h.left.getElem? (i := 0) (by simp)
  have hhigh : body[offset + 1]? = some low := h.left.getElem? (i := 1) (by simp)
  simp only [readTable?, hlow, hhigh, Option.bind_eq_bind, Option.bind_some,
    Option.bind_eq_some_iff, Option.pure_def, Option.some.injEq, noteTable.injEq, true_and] at hread
  obtain ⟨_, hranges, rfl⟩ := hread
  have hcount := (mapM_eq_some_iff.1 hranges).length_eq
  simp at hcount

theorem readSplit?_of_at (h : At body offset (encode (.keySplit ranges)))
    (hdecoded : (keySplit ranges).IsDecoded) :
    readSplit? body offset = some (.keySplit ranges) := by
  obtain ⟨hspans, hle⟩ := hdecoded
  have hnotes : ranges.map (·.highNote) = (regionSpans 0 (ranges.map (·.highNote))).map (·.2) := by
    rw [← hspans, List.map_map]
    rfl
  have hbytes : (regionBytes ranges).toList = ranges.map (·.highNote)
      ++ List.replicate (splitRegions - ranges.length) 0 := by
    rw [regionBytes, List.take_of_length_le (by simpa using hle), List.length_map]
  have hsize : (regionBytes ranges).size = splitRegions := by
    rw [← Array.length_toList, hbytes]
    simp
    omega
  have hregions : regionSpans 0 (regionBytes ranges).toList = ranges.map KeyRange.span := by
    have hpadded := regionSpans_padded 0 (ranges.map (·.highNote)) (splitRegions - ranges.length)
    rwa [← hnotes, ← hspans, ← hbytes] at hpadded
  have hslice := h.left.slice?
  have hrecords := h.right
  rw [hsize] at hslice hrecords
  have hread : (ranges.map KeyRange.span).zipIdx.mapM (fun region => KeyRange.readWithRecord? body
      (offset + splitRegions + region.2 * recordedLength) region.1.1 region.1.2) = some ranges := by
    refine mapM_eq_some_iff.2 (List.forall₂_iff_get.2 ⟨by simp, fun n _ hn => ?_⟩)
    simp only [List.get_eq_getElem, List.getElem_zipIdx, List.getElem_map, Nat.zero_add]
    exact readWithRecord?_of_at_concat hrecords hn
  simp only [readSplit?, hslice, Option.bind_eq_bind, Option.bind_some, hregions]
  exact Option.bind_eq_some_iff.2 ⟨ranges, hread, rfl⟩

theorem recordByte_single {r : KeyRange} {record : UInt8} (h : r.record = record.toUInt16) :
    (single r).recordByte = record := by
  rw [recordByte, h]
  simp

/-- Where an instrument is written it is read back, unless it is a table without ranges. -/
theorem read?_of_at_iff (h : At body offset i.encode) (hdecoded : i.IsDecoded) :
    read? body offset i.recordByte = some i ↔ ∀ low, i ≠ .noteTable low [] := by
  cases i with
  | empty => exact iff_of_true rfl (by simp)
  | single r =>
    obtain ⟨hspan, record, hrecord, hempty, htable, hsplit⟩ := hdecoded
    have hread := KeyRange.read?_of_at h
    rw [show r.lowNote = _ from congrArg Prod.fst hspan,
      show r.highNote = _ from congrArg Prod.snd hspan, hrecord] at hread
    refine iff_of_true ?_ (by simp)
    rw [recordByte_single hrecord, read?, if_neg hempty, if_neg htable, if_neg hsplit, hread]
    rfl
  | noteTable low ranges =>
    have hread : read? body offset (recordByte (.noteTable low ranges)) = readTable? body offset :=
      rfl
    rw [hread]
    by_cases hranges : ranges = []
    · subst hranges
      exact iff_of_false (readTable?_of_empty h) fun hne => hne low rfl
    · exact iff_of_true (readTable?_of_at h hdecoded hranges) (by simp [hranges])
  | keySplit ranges => exact iff_of_true (readSplit?_of_at h hdecoded) (by simp)

theorem recordByte_eq_zero_iff (hdecoded : i.IsDecoded) : i.recordByte = 0 ↔ i = .empty := by
  cases i with
  | empty => exact iff_of_true rfl rfl
  | single r =>
    obtain ⟨-, record, hrecord, hempty, -⟩ := hdecoded
    rw [recordByte_single hrecord]
    exact iff_of_false hempty (by simp)
  | noteTable low ranges => exact iff_of_false (show tableRecord ≠ 0 by decide) (by simp)
  | keySplit ranges => exact iff_of_false (show splitRecord ≠ 0 by decide) (by simp)

end Instrument

/-! ## Banks -/

namespace Bank

variable {b : Bank} {c : Bytes} {instruments : List Instrument} {n : Nat}

theorem isDecoded_of_decode (h : decode body = .ok b) : ∀ i ∈ b.instruments, i.IsDecoded := by
  unfold decode at h
  obtain ⟨_, -, h⟩ := bind_eq_ok.1 h
  obtain ⟨_, -, h⟩ := bind_eq_ok.1 h
  obtain ⟨_, hinstruments, h⟩ := bind_eq_ok.1 h
  cases h
  rw [Resource.required_eq_ok, readInstruments?] at hinstruments
  split at hinstruments
  · intro i hi
    obtain ⟨_, -, hread⟩ := exists_of_forall₂ (mapM_eq_some_iff.1 hinstruments) hi
    simp only [readInstrument?, Option.bind_eq_bind, Option.bind_eq_some_iff] at hread
    obtain ⟨_, -, _, -, _, -, hread⟩ := hread
    exact Instrument.isDecoded_of_read? hread
  · cases hinstruments

/-! ## Headers -/

/-- Where the instruments in front of the `n`th end, if the first of them is at `offset`. -/
def payloadStart (offset : Nat) (instruments : List Instrument) (n : Nat) : Nat :=
  offset + ((instruments.take n).map (·.encode.size)).sum

/-- The header of an instrument that is stored at `start`. -/
def header (i : Instrument) (start : Nat) : Bytes :=
  #[i.recordByte] ++ ofU16 (if i.recordByte = 0 then 0 else start.toUInt16) ++ #[0]

theorem headersFrom_eq (offset : Nat) (instruments : List Instrument) :
    headersFrom offset instruments
      = instruments.mapIdx fun n i => header i (payloadStart offset instruments n) := by
  induction instruments generalizing offset with
  | nil => rfl
  | cons i rest ih => simp [headersFrom, ih, header, payloadStart, Nat.add_assoc]

@[simp] theorem size_header (i : Instrument) (start : Nat) : (header i start).size = 4 := by
  simp [header]

theorem size_of_mem_headersFrom (offset : Nat) (instruments : List Instrument) :
    ∀ h ∈ headersFrom offset instruments, h.size = 4 := by
  rw [headersFrom_eq]
  intro h hmem
  obtain ⟨n, hn, rfl⟩ := List.mem_mapIdx.1 hmem
  exact size_header _ _

theorem readInstrument?_of_at_iff {start : Nat} (hheader : At c offset (header i start))
    (hat : At c start i.encode) (hstart : start < 65536) (hdecoded : i.IsDecoded) :
    readInstrument? c offset = some i ↔ ∀ low, i ≠ .noteTable low [] := by
  have hrecord := hheader.left.left.singleton
  have hoffset := hheader.left.right.u16?
  have hpadding := hheader.right.singleton
  simp only [Array.size_append, List.size_toArray, List.length_singleton, size_ofU16]
    at hoffset hpadding
  by_cases hempty : i.recordByte = 0
  · obtain rfl := (Instrument.recordByte_eq_zero_iff hdecoded).1 hempty
    refine iff_of_true ?_ (by simp)
    simp [readInstrument?, hrecord, hoffset, hpadding, Instrument.read?, Instrument.recordByte]
  · have hnat : start.toUInt16.toNat = start := by
      rw [Nat.toUInt16_eq, UInt16.toNat_ofNat', Nat.mod_eq_of_lt hstart]
    rw [if_neg hempty] at hoffset
    have hread : readInstrument? c offset = Instrument.read? c start i.recordByte := by
      simp [readInstrument?, hrecord, hoffset, hpadding, hnat]
    rw [hread]
    exact Instrument.read?_of_at_iff hat hdecoded

/-! ## Bodies -/

/-- The headers and the instruments of a bank lie one behind the other, where offsets of 16 bits
reach. -/
structure LaidOut (c : Bytes) (instruments : List Instrument) : Prop where
  prologue : ∃ total, At c 0 (Resource.prologue tag total)
  count : At c countOffset (ofU32 instruments.length.toUInt32)
  headers : At c headersStart
    (concat (headersFrom (headersStart + 4 * instruments.length) instruments))
  payload : At c (headersStart + 4 * instruments.length)
    (concat (instruments.map Instrument.encode))
  room : headersStart + 4 * instruments.length + (concat (instruments.map Instrument.encode)).size
    ≤ maxLength

theorem laidOut_of_encode (h : b.encode = .ok c) : LaidOut c b.instruments := by
  unfold encode at h
  simp only at h
  split at h
  · cases h
  · next hroom =>
    have hat := at_self c
    nth_rewrite 2 [← Except.ok.inj h] at hat
    have hlength : (concat (headersFrom (headersStart + 4 * b.instruments.length)
        b.instruments)).size = 4 * b.instruments.length := by
      rw [size_concat 4 (size_of_mem_headersFrom _ _), headersFrom_eq, List.length_mapIdx]
    have hcount := hat.left.left.left.right
    have hheaders := hat.left.left.right
    have hpayload := hat.left.right
    simp only [Array.size_append, Resource.size_prologue, size_zeros, size_ofU32, hlength,
      Nat.zero_add] at hcount hheaders hpayload
    exact ⟨⟨_, hat.left.left.left.left.left⟩, hcount, hheaders, hpayload, Nat.le_of_not_lt hroom⟩

namespace LaidOut

theorem decode_eq_ok_iff (h : LaidOut c b.instruments) :
    decode c = .ok b ↔ readInstruments? c b.instruments.length = some b.instruments := by
  obtain ⟨total, hprologue⟩ := h.prologue
  have hroom := h.room
  have hcount : b.instruments.length.toUInt32.toNat = b.instruments.length :=
    toNat_toUInt32 (by unfold maxLength at hroom; omega)
  simp only [decode, Resource.readPrologue_of_at hprologue, h.count.u32?, ok_bind,
    Resource.required_some, hcount]
  cases readInstruments? c b.instruments.length with
  | none => simp [Resource.required]
  | some read =>
    cases b
    simp [pure, Except.pure]

theorem readInstrument?_iff (h : LaidOut c instruments) (hn : n < instruments.length)
    (hdecoded : instruments[n].IsDecoded) :
    readInstrument? c (headersStart + 4 * n) = some instruments[n] ↔
      ∀ low, instruments[n] ≠ .noteTable low [] := by
  have hpart : (instruments.map Instrument.encode)[n]? = some instruments[n].encode := by
    simp [hn]
  have hstart : ((((instruments.map Instrument.encode).take n).map Array.size)).sum
      = ((instruments.take n).map (·.encode.size)).sum := by
    rw [← List.map_take, List.map_map]
    rfl
  have hfits := ((at_self (concat (instruments.map Instrument.encode))).concat_part hpart).bound
  have hat := h.payload.concat_part hpart
  have hheader := h.headers.concat_getElem 4 (i := n) (size_of_mem_headersFrom _ _)
    (by simpa [headersFrom_eq] using hn)
  simp only [headersFrom_eq, List.getElem_mapIdx] at hheader
  have hroom := h.room
  rw [hstart] at hat hfits
  unfold maxLength at hroom
  exact readInstrument?_of_at_iff hheader hat (by unfold payloadStart; omega) hdecoded

theorem readInstruments?_iff (h : LaidOut c instruments)
    (hdecoded : ∀ i ∈ instruments, i.IsDecoded) :
    readInstruments? c instruments.length = some instruments ↔
      ∀ low, .noteTable low [] ∉ instruments := by
  have hroom := h.payload.bound
  rw [readInstruments?, if_pos (.inr (by omega)), mapM_eq_some_iff]
  have hiff (n : Nat) (hn : n < instruments.length) :=
    h.readInstrument?_iff hn (hdecoded _ (List.getElem_mem hn))
  constructor
  · intro hall low hmem
    obtain ⟨n, hn, hempty⟩ := List.getElem_of_mem hmem
    have hread := (List.forall₂_iff_get.1 hall).2 n (by simpa using hn) hn
    simp only [List.get_eq_getElem, List.getElem_range] at hread
    exact (hiff n hn).1 hread low hempty
  · intro hnone
    exact forall₂_range fun n hn =>
      (hiff n hn).2 fun low hempty => hnone low (hempty ▸ List.getElem_mem hn)

end LaidOut

/-! ## The whole -/

/-- A bank that was read is read back from what it is written as, unless one of its note tables
has no ranges. Such a table is written as one that ends at the note it begins at. -/
theorem decode_encode_iff_no_empty_table (hdecode : decode body = .ok b)
    (hencode : b.encode = .ok c) :
    decode c = .ok b ↔ ∀ low, .noteTable low [] ∉ b.instruments := by
  have hlaid := laidOut_of_encode hencode
  rw [hlaid.decode_eq_ok_iff, hlaid.readInstruments?_iff (isDecoded_of_decode hdecode)]

/-- A body with these headers of instruments, and `payload` behind them. -/
def bodyOf (headers : List (UInt8 × UInt16)) (payload : Bytes) : Bytes :=
  Resource.prologue tag 0 ++ zeros Resource.reservedLength ++ ofU32 headers.length.toUInt32
    ++ concat (headers.map fun (record, start) => #[record] ++ ofU16 start ++ #[0]) ++ payload

/-- A range that is all zeros, but for its span. -/
def blankRange (lowNote highNote : UInt8) : KeyRange :=
  { lowNote, highNote, record := 0, wave := 0, waveArchive := 0, baseNote := 0, attack := 0
    decay := 0, sustain := 0, release := 0, pan := 0 }

/-- Two tables and a split share their bytes, and the notes of the tables go on at 0 behind 255. -/
theorem decode_encode_of_shared_bytes :
    let body := bodyOf [(16, 72), (16, 72), (17, 72)] (#[255, 0] ++ zeros 24)
    let table : Instrument := .noteTable 255 [blankRange 255 255, blankRange 0 0]
    let b : Bank := ⟨[table, table, .keySplit [blankRange 0 255]]⟩
    decode body = .ok b ∧ ∃ c, b.encode = .ok c ∧ decode c = .ok b := by
  intro body table b
  have hdecode : decode body = .ok b := by decide +kernel
  have hencode : b.encode = .ok (b.encode.toOption.getD #[]) := by decide +kernel
  exact ⟨hdecode, _, hencode,
    (decode_encode_iff_no_empty_table hdecode hencode).2 (by simp [b, table])⟩

/-- A note table that ends in front of the note it begins at has no ranges, but is written with
room for one. -/
theorem encode_empty_table_is_not_read_back :
    ¬ ∀ (body : Bytes) (b : Bank) (c : Bytes),
      decode body = .ok b → b.encode = .ok c → decode c = .ok b := by
  intro hclaim
  let b : Bank := ⟨[.noteTable 1 []]⟩
  have hdecode : decode (bodyOf [(16, 64)] #[1, 0]) = .ok b := by decide +kernel
  have hencode : b.encode = .ok (b.encode.toOption.getD #[]) := by decide +kernel
  have hread : decode (b.encode.toOption.getD #[]) ≠ .ok b := by decide +kernel
  exact hread (hclaim _ b _ hdecode hencode)

end Bank

end SoundArchive
