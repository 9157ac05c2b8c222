import SoundArchive.Proofs.Archive.Sections
import SoundArchive.Wave.Archive

/-!
# Writing a wave archive that was read, and reading it back

Waves may share their bytes, or overlap, and lie in any order. They are written one behind the
other, with the lengths that their loops say.
-/

namespace SoundArchive

open Bytes

variable {body bytes : Bytes} {offset : Nat}

/-! ## Numbered collections -/

namespace Numbered

variable {α : Type}

theorem slotsFrom_numberFrom (n : Nat) (slots : List (Option α)) :
    slotsFrom n slots.length (numberFrom n slots) = slots := by
  induction slots generalizing n with
  | nil => rfl
  | cons slot rest ih =>
    cases slot with
    | some a => simp [numberFrom, slotsFrom, ih]
    | none =>
      have hrest := ih (n + 1)
      rw [numberFrom, List.length_cons]
      cases hentries : numberFrom (n + 1) rest with
      | nil =>
        rw [hentries] at hrest
        rw [slotsFrom, hrest]
      | cons e entries =>
        have hlt : n + 1 ≤ e.1 := le_of_mem_numberFrom (hentries ▸ List.mem_cons_self)
        rw [hentries] at hrest
        rw [slotsFrom, if_neg (by omega), hrest]

theorem slots_ofSlots (slots : List (Option α)) : (ofSlots slots).slots slots.length = slots :=
  slotsFrom_numberFrom 0 slots

end Numbered

/-! ## Lists of records -/

namespace RecordList

variable {α : Type} {size : α → Nat} {encode : α → Bytes}

theorem offsetsFrom_mapLive (h : ∀ a, (encode a).size = size a) (offset : Nat) (slots : Slots α) :
    offsetsFrom Array.size offset (slots.mapLive encode) = offsetsFrom size offset slots := by
  induction slots generalizing offset with
  | nil => rfl
  | cons slot rest ih =>
    unfold Slots.mapLive at ih ⊢
    cases slot <;> simp [offsetsFrom, ih, h]

theorem encode_mapLive (h : ∀ a, (encode a).size = size a) (offset : Nat) (slots : Slots α) :
    RecordList.encode Array.size offset (slots.mapLive encode)
      = RecordList.encode size offset slots := by
  rw [RecordList.encode, RecordList.encode, offsetsFrom_mapLive h, Slots.mapLive, List.length_map]

end RecordList

/-! ## Waves -/

namespace Wave

variable {w : Wave}

theorem size_encode (w : Wave) : w.encode.size = w.encodedLength := by
  simp [encode, encodedLength, infoLength]
  omega

/-- The loop and what is in front of it are all of the data. -/
def IsDecoded (w : Wave) : Prop := w.data.size = (w.loopOffset.toNat + w.loopWords.toNat) * 4

theorem isDecoded_of_decode (h : decode body offset = .ok w) : w.IsDecoded := by
  unfold decode at h
  obtain ⟨formatByte, -, h⟩ := bind_eq_ok.1 h
  cases hformat : WaveFormat.ofByte? formatByte with
  | none => simp [hformat] at h
  | some format =>
    simp only [hformat] at h
    obtain ⟨_, -, h⟩ := bind_eq_ok.1 h
    obtain ⟨_, -, h⟩ := bind_eq_ok.1 h
    obtain ⟨_, -, h⟩ := bind_eq_ok.1 h
    obtain ⟨_, -, h⟩ := bind_eq_ok.1 h
    obtain ⟨_, -, h⟩ := bind_eq_ok.1 h
    obtain ⟨data, hdata, h⟩ := bind_eq_ok.1 h
    cases h
    exact size_of_slice? (Resource.required_eq_ok.1 hdata)

theorem ofByte?_toByte (format : WaveFormat) : WaveFormat.ofByte? format.toByte = some format := by
  cases format <;> rfl

theorem decode_of_at (h : At body offset w.encode) (hdecoded : w.IsDecoded) :
    decode body offset = .ok w := by
  have hfront := h.left.left.left.left.left
  have hformat : body[offset]? = some w.format.toByte := hfront.getElem? (i := 0) (by simp)
  have hlooped : body[offset + 1]? = some (if w.looped then 1 else 0) :=
    hfront.getElem? (i := 1) (by simp)
  have hsampleRate := h.left.left.left.left.right.u16?
  have htimer := h.left.left.left.right.u16?
  have hloopOffset := h.left.left.right.u16?
  have hloopWords := h.left.right.u32?
  have hdata := h.right.slice?
  have hsize : w.data.size = _ := hdecoded
  rw [hsize] at hdata
  simp only [Array.size_append, List.size_toArray, List.length_cons, List.length_nil, size_ofU16,
    size_ofU32, Nat.reduceAdd] at hsampleRate htimer hloopOffset hloopWords hdata
  simp only [decode, hformat, hlooped, hsampleRate, htimer, hloopOffset, hloopWords, infoLength,
    hdata, Resource.required_some, ok_bind, ofByte?_toByte]
  obtain ⟨format, looped, sampleRate, timer, loopOffset, loopWords, data, samples, rfl⟩ := w
  cases looped <;> rfl

end Wave

/-! ## Archives -/

namespace WaveArchive

variable {a : WaveArchive} {slots : List (Option Wave)}

/-- An archive that numbers these slots. -/
def ofSlots (slots : List (Option Wave)) : WaveArchive :=
  { length := slots.length, waves := .ofSlots slots }

theorem decodeSlot_of_at {w : Wave} {p : UInt32} (hp : p ≠ 0) (h : At body p.toNat w.encode)
    (hdecoded : w.IsDecoded) : decodeSlot body p = .ok (some w) := by
  rw [decodeSlot, if_neg hp, Wave.decode_of_at h hdecoded]
  rfl

theorem exists_ofSlots_of_decode (h : decode body = .ok a) :
    ∃ slots, (∀ w ∈ Slots.live slots, w.IsDecoded) ∧ a = ofSlots slots := by
  unfold decode at h
  obtain ⟨_, -, h⟩ := bind_eq_ok.1 h
  obtain ⟨_, -, h⟩ := bind_eq_ok.1 h
  obtain ⟨slots, hslots, h⟩ := bind_eq_ok.1 h
  cases h
  refine ⟨slots, fun w hw => ?_, rfl⟩
  have hmem : some w ∈ slots := by simpa [Slots.live] using hw
  obtain ⟨offset, -, hslot⟩ := exists_of_forall₂ (forall₂_of_mapM hslots) hmem
  unfold decodeSlot at hslot
  split at hslot
  · cases hslot
  · obtain ⟨_, hwave, hsome⟩ := bind_eq_ok.1 hslot
    cases hsome
    exact Wave.isDecoded_of_decode hwave

/-! ## Bodies -/

/-- Where the waves of an archive with these slots start. -/
def dataStart (slots : List (Option Wave)) : Nat := listStart + RecordList.length slots

/-- The length of the body of an archive with these slots. -/
def bodyLength (slots : List (Option Wave)) : Nat :=
  align4 (dataStart slots + (concat ((Slots.live slots).map Wave.encode)).size)

theorem encode_ofSlots (slots : List (Option Wave)) :
    (ofSlots slots).encode = Resource.prologue tag (bodyLength slots)
      ++ zeros Resource.reservedLength
      ++ RecordList.encode Wave.encodedLength (dataStart slots) slots
      ++ concat ((Slots.live slots).map Wave.encode)
      ++ zeros (bodyLength slots
        - (dataStart slots + (concat ((Slots.live slots).map Wave.encode)).size)) := by
  rw [encode, ofSlots, Numbered.slots_ofSlots]
  rfl

theorem size_encode_ofSlots (slots : List (Option Wave)) :
    (ofSlots slots).encode.size = bodyLength slots := by
  have hle : dataStart slots + (concat ((Slots.live slots).map Wave.encode)).size
      ≤ bodyLength slots := le_align4 _
  rw [encode_ofSlots]
  simp only [Array.size_append, Resource.size_prologue, size_zeros, RecordList.size_encode]
  unfold dataStart listStart at hle ⊢
  omega

theorem stored_ofSlots (slots : List (Option Wave)) :
    At (ofSlots slots).encode 0 (Resource.prologue tag (bodyLength slots)) ∧
      RecordList.Stored (ofSlots slots).encode listStart (dataStart slots)
        (Slots.mapLive Wave.encode slots) := by
  have hat := at_self (ofSlots slots).encode
  nth_rewrite 2 [encode_ofSlots] at hat
  have hlist := hat.left.left.right
  have hwaves := hat.left.right
  simp only [Array.size_append, Resource.size_prologue, size_zeros, RecordList.size_encode,
    Nat.zero_add] at hlist hwaves
  rw [← RecordList.encode_mapLive Wave.size_encode] at hlist
  rw [← Slots.live_mapLive] at hwaves
  exact ⟨hat.left.left.left.left, hlist, hwaves⟩

theorem decode_encode_ofSlots (hdecoded : ∀ w ∈ Slots.live slots, w.IsDecoded)
    (hsize : (ofSlots slots).encode.size < 2 ^ 32) :
    decode (ofSlots slots).encode = .ok (ofSlots slots) := by
  obtain ⟨hprologue, hstored⟩ := stored_ofSlots slots
  have hpos : 0 < dataStart slots := by
    unfold dataStart RecordList.length
    omega
  have hslots : (RecordList.offsetsFrom Array.size (dataStart slots)
      (Slots.mapLive Wave.encode slots)).mapM (decodeSlot (ofSlots slots).encode) = .ok slots :=
    RecordList.Stored.mapM_offsetsFrom hstored.records hsize hpos rfl
      fun w hw p hp hat => decodeSlot_of_at hp hat (hdecoded w hw)
  simp only [decode, Resource.readPrologue_of_at hprologue, hstored.offsets? hsize,
    Resource.required_some, ok_bind, hslots]
  rfl

/-! ## The whole -/

/-- A wave archive that was read is written with a length that is a multiple of four and that of
its header, and it is read back from what is written. -/
theorem decode_encode_of_decode (hdecode : decode body = .ok a) (hsize : a.encode.size < 2 ^ 32) :
    a.encode.size % 4 = 0 ∧
      (∃ header, Header.read? a.encode 0 = some header ∧
        header.fileSize.toNat = a.encode.size) ∧
      decode a.encode = .ok a := by
  obtain ⟨slots, hdecoded, rfl⟩ := exists_ofSlots_of_decode hdecode
  refine ⟨?_, ⟨_, Resource.header_of_at (stored_ofSlots slots).1, ?_⟩,
    decode_encode_ofSlots hdecoded hsize⟩
  · rw [size_encode_ofSlots]
    exact align4_mod _
  · rw [size_encode_ofSlots] at hsize ⊢
    exact toNat_toUInt32 hsize

/-- A wave that is stored for two numbers, around a number without one, and has an empty wave
stored in its data. -/
theorem decode_encode_of_overlapping_waves :
    let body := Resource.prologue tag 0 ++ zeros Resource.reservedLength ++ ofU32 4
      ++ ofU32s [76, 0, 88, 76] ++ zeros 8 ++ ofU32 4 ++ zeros 16
    let wave (words : Nat) : Wave :=
      { format := .pcm8, looped := false, sampleRate := 0, timer := 0, loopOffset := 0
        loopWords := words.toUInt32, data := zeros (4 * words) }
    let a := ofSlots [some (wave 4), none, some (wave 0), some (wave 4)]
    decode body = .ok a ∧ a.encode.size < 2 ^ 32 ∧ a.encode.size % 4 = 0 ∧
      (∃ header, Header.read? a.encode 0 = some header ∧
        header.fileSize.toNat = a.encode.size) ∧
      decode a.encode = .ok a := by
  intro body wave a
  have hdecode : decode body = .ok a := by decide +kernel
  have hsize : a.encode.size < 2 ^ 32 := by decide +kernel
  exact ⟨hdecode, hsize, decode_encode_of_decode hdecode hsize⟩

end WaveArchive

end SoundArchive
