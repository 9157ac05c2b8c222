import SoundArchive.Archive.Symbols
import SoundArchive.Proofs.Archive.Sections

/-! # The names are read back as they were written -/

namespace SoundArchive

open Bytes

namespace Symbols

variable {bytes : Bytes} {offset start : Nat}

/-! ## Names -/

/-- A name whose characters all have a byte, and none the byte that ends it. -/
def Writable (name : String) : Prop := ∀ c ∈ name.toList, 0 < c.toNat ∧ c.toNat ≤ 0xFF

def byteOf (c : Char) : UInt8 := (min c.toNat 0xFF).toUInt8

theorem toNat_byteOf {c : Char} (hc : c.toNat ≤ 0xFF) : (byteOf c).toNat = c.toNat := by
  rw [byteOf, Nat.min_eq_left hc, Nat.toUInt8_eq, UInt8.toNat_ofNat', Nat.mod_eq_of_lt (by omega)]

theorem ofNat_byteOf {c : Char} (hc : c.toNat ≤ 0xFF) : Char.ofNat (byteOf c).toNat = c := by
  rw [toNat_byteOf hc, Char.ofNat_toNat]

theorem byteOf_ne_zero {c : Char} (hpos : 0 < c.toNat) (hc : c.toNat ≤ 0xFF) : byteOf c ≠ 0 := by
  intro hzero
  have hnat := toNat_byteOf hc
  rw [hzero] at hnat
  exact absurd hnat (Nat.ne_of_lt hpos)

theorem nameEnd?_of_at {chars : List Char}
    (h : At bytes offset ((chars.map byteOf).toArray ++ #[0]))
    (hchars : ∀ c ∈ chars, 0 < c.toNat ∧ c.toNat ≤ 0xFF) :
    nameEnd? bytes offset = some (offset + chars.length) := by
  induction chars generalizing offset with
  | nil =>
    have hend : At bytes offset #[0] := by simpa using h
    obtain ⟨hlt, hzero⟩ := Array.getElem?_eq_some_iff.1 hend.singleton
    rw [nameEnd?, dif_pos hlt, if_pos hzero]
    rfl
  | cons c rest ih =>
    obtain ⟨hpos, hc⟩ := hchars c List.mem_cons_self
    have hsplit : ((c :: rest).map byteOf).toArray = #[byteOf c] ++ (rest.map byteOf).toArray := by
      simp
    rw [hsplit, Array.append_assoc] at h
    obtain ⟨hlt, hbyte⟩ := Array.getElem?_eq_some_iff.1 h.left.singleton
    have hne : bytes[offset] ≠ 0 := fun hzero => byteOf_ne_zero hpos hc (hbyte.symm.trans hzero)
    have hrest := ih h.right fun c' hc' => hchars c' (List.mem_cons_of_mem _ hc')
    rw [nameEnd?, dif_pos hlt, if_neg hne, List.length_cons]
    rw [Nat.add_right_comm] at hrest
    exact hrest

theorem readName_encodeName {name : String} (hname : Writable name)
    (h : At bytes offset (encodeName name)) : readName bytes offset = .ok name := by
  have hname' : encodeName name = (name.toList.map byteOf).toArray ++ #[0] := by
    simp [encodeName, byteOf]
  rw [hname'] at h
  have hextract := h.left.extract
  rw [List.size_toArray, List.length_map] at hextract
  have hchars : (name.toList.map byteOf).map (fun b => Char.ofNat b.toNat) = name.toList := by
    rw [List.map_map]
    refine (List.map_congr_left fun c hc => ?_).trans (List.map_id _)
    exact ofNat_byteOf (hname c hc).2
  rw [readName, nameEnd?_of_at h hname]
  simp only [hextract, hchars, String.ofList_toList]

/-! ## Lists of names -/

theorem readSlots_of_stored {names : Slots String} (hnames : ∀ name ∈ names.live, Writable name)
    (h : RecordList.Stored bytes start offset (names.mapLive encodeName))
    (hsize : bytes.size < 2 ^ 32) (hstart : 0 < start) (hoffset : 0 < offset) :
    readSlots bytes start = .ok names := by
  have hread : (RecordList.offsetsFrom Array.size offset (names.mapLive encodeName)).mapM
      (readSlot bytes) = .ok names := by
    refine RecordList.Stored.mapM_offsetsFrom h.records hsize hoffset rfl ?_
    intro name hname p hp hat
    simp [readSlot, hp, readName_encodeName (hnames name hname) hat]
  have hbound := h.list.bound
  rw [RecordList.size_encode, RecordList.length] at hbound
  have hlength : (names.mapLive encodeName).length = names.length := by simp [Slots.mapLive]
  rw [hlength] at hbound
  have hcount : bytes.u32? start = some names.length.toUInt32 := by
    rw [← hlength]
    exact h.list.left.u32?
  have hnat : names.length.toUInt32.toNat = names.length := toNat_toUInt32 (by omega)
  have havailable : min names.length ((bytes.size - (start + 4)) / 4) = names.length := by omega
  have hslots : (List.range names.length).mapM (fun i => do
      readSlot bytes (← DecodeError.required (bytes.u32? (start + 4 + 4 * i)))) = .ok names := by
    rw [← hread, ← hlength, ← RecordList.length_offsetsFrom Array.size offset]
    refine mapM_eq_mapM (forall₂_range fun i hi => ?_)
    have hword := (h.list.right.ofU32s_getElem hi).u32?
    rw [size_ofU32] at hword
    rw [hword]
    rfl
  simp only [readSlots, if_neg (Nat.ne_of_gt hstart), hcount, DecodeError.required_some, ok_bind,
    hnat, havailable, hslots, Nat.lt_irrefl, if_false]
  rfl

/-! ## The section -/

def Storable (s : Symbols) : Prop :=
  ∀ names ∈ [s.sequences, s.banks, s.waveArchives], ∀ name ∈ Slots.live names, Writable name

theorem readSlots_of_section {lists : List (Slots Bytes)} {tag : Tag} (names : Slots String)
    (n : Nat) (h : At bytes 0 (RecordList.encodeSection tag lists)) (hsize : bytes.size < 2 ^ 32)
    (hcount : lists.length ≤ 14) (hslots : lists[n]? = some (names.mapLive encodeName))
    (hnames : ∀ name ∈ names.live, Writable name) :
    ∃ start, RecordList.start? bytes n = .ok start ∧ readSlots bytes start = .ok names := by
  obtain ⟨start, offset, hstart, hpos, hoffset, hstored⟩ :=
    RecordList.stored_of_section h hsize hcount hslots
  exact ⟨start, hstart, readSlots_of_stored hnames hstored hsize hpos hoffset⟩

theorem decode_encode {s : Symbols} (hs : s.Storable) (hsize : s.encode.size < 2 ^ 32) :
    decode s.encode = .ok s := by
  have hsection := (at_self s.encode).left
  obtain ⟨sequences, hsequences, hreadSequences⟩ :=
    readSlots_of_section s.sequences 0 hsection hsize (by simp) rfl (hs _ (by simp))
  obtain ⟨banks, hbanks, hreadBanks⟩ :=
    readSlots_of_section s.banks 2 hsection hsize (by simp) rfl (hs _ (by simp))
  obtain ⟨waveArchives, hwaveArchives, hreadWaveArchives⟩ :=
    readSlots_of_section s.waveArchives 3 hsection hsize (by simp) rfl
      (hs _ (by simp))
  simp [decode, hsequences, hreadSequences, hbanks, hreadBanks, hwaveArchives, hreadWaveArchives,
    pure, Except.pure]

/-! ## What was read can be written -/

theorem ne_zero_of_nameEnd? {stop : Nat} (h : nameEnd? bytes offset = some stop) {i : Nat}
    (hi : i < bytes.size) (hfirst : offset ≤ i) (hlast : i < stop) : bytes[i] ≠ 0 := by
  induction offset using nameEnd?.induct bytes with
  | case1 offset hlt hzero =>
    rw [nameEnd?, dif_pos hlt, if_pos hzero] at h
    cases h
    omega
  | case2 offset hlt hne ih =>
    rw [nameEnd?, dif_pos hlt, if_neg hne] at h
    rcases Nat.eq_or_lt_of_le hfirst with rfl | hbehind
    · exact hne
    · exact ih h hbehind
  | case3 offset hend =>
    rw [nameEnd?, dif_neg hend] at h
    cases h

theorem toNat_ofNat_byte (b : UInt8) : (Char.ofNat b.toNat).toNat = b.toNat := by
  have hlt := b.toNat_lt
  rw [Char.ofNat, dif_pos (.inl (by omega))]
  rfl

theorem writable_of_readName {name : String} (h : readName bytes offset = .ok name) :
    Writable name := by
  unfold readName at h
  split at h
  · cases h
  · next stop hstop =>
    cases h
    intro c hc
    rw [String.toList_ofList] at hc
    obtain ⟨b, hb, rfl⟩ := List.mem_map.1 hc
    obtain ⟨i, hi, rfl⟩ := List.mem_iff_getElem.1 hb
    simp only [Array.length_toList, Array.size_extract] at hi
    have hne : bytes[offset + i] ≠ 0 :=
      ne_zero_of_nameEnd? hstop (by omega) (by omega) (by omega)
    have hpos : bytes[offset + i].toNat ≠ 0 := fun h0 => hne (UInt8.toNat_inj.1 h0)
    have hlt := bytes[offset + i].toNat_lt
    simp only [Array.getElem_toList, Array.getElem_extract, toNat_ofNat_byte]
    omega

theorem writable_of_readSlots {names : Slots String} (h : readSlots bytes start = .ok names) :
    ∀ name ∈ names.live, Writable name := by
  intro name hname
  have hmem : some name ∈ names := by simpa [Slots.live] using hname
  unfold readSlots at h
  split at h
  · cases h
    cases hmem
  · obtain ⟨count, -, h⟩ := bind_eq_ok.1 h
    obtain ⟨read, hread, h⟩ := bind_eq_ok.1 h
    split at h
    · cases h
    · cases h
      obtain ⟨i, -, hslot⟩ := exists_of_forall₂ (forall₂_of_mapM hread) hmem
      obtain ⟨word, -, hslot⟩ := bind_eq_ok.1 hslot
      unfold readSlot at hslot
      split at hslot
      · cases hslot
      · obtain ⟨name', hname', hsome⟩ := map_eq_ok.1 hslot
        cases hsome
        exact writable_of_readName hname'

theorem storable_of_decode {s : Symbols} (h : decode bytes = .ok s) : s.Storable := by
  unfold decode at h
  obtain ⟨_, -, h⟩ := bind_eq_ok.1 h
  obtain ⟨sequences, hsequences, h⟩ := bind_eq_ok.1 h
  obtain ⟨_, -, h⟩ := bind_eq_ok.1 h
  obtain ⟨banks, hbanks, h⟩ := bind_eq_ok.1 h
  obtain ⟨_, -, h⟩ := bind_eq_ok.1 h
  obtain ⟨waveArchives, hwaveArchives, h⟩ := bind_eq_ok.1 h
  cases h
  intro names hnames
  rcases List.mem_cons.1 hnames with rfl | hnames
  · exact writable_of_readSlots hsequences
  rcases List.mem_cons.1 hnames with rfl | hnames
  · exact writable_of_readSlots hbanks
  · obtain rfl := List.mem_singleton.1 hnames
    exact writable_of_readSlots hwaveArchives

/-! ## Placeholders -/

theorem exists_digit_of_mem_toDigits {base n : Nat} {c : Char} (hbase : 1 < base)
    (hc : c ∈ Nat.toDigits base n) : ∃ d < base, c = d.digitChar := by
  induction n using Nat.strongRecOn with
  | ind n ih =>
    rcases Nat.lt_or_ge n base with hlt | hge
    · rw [Nat.toDigits_of_lt_base hlt] at hc
      exact ⟨n, hlt, List.mem_singleton.1 hc⟩
    · rw [Nat.toDigits_of_base_le hbase hge] at hc
      rcases List.mem_append.1 hc with hfront | hlast
      · exact ih (n / base) (Nat.div_lt_self (by omega) hbase) hfront
      · exact ⟨n % base, Nat.mod_lt n (by omega), List.mem_singleton.1 hlast⟩

theorem writable_hexDigits (n width : Nat) : Writable (Text.hexDigits n width) := by
  intro c hc
  simp only [Text.hexDigits, String.toList_ofList] at hc
  rcases List.mem_append.1 hc with hzero | hdigit
  · rw [List.eq_of_mem_replicate hzero]
    decide
  · have hdigits : ∀ d < 16, 0 < (Nat.digitChar d).toNat ∧ (Nat.digitChar d).toNat ≤ 0xFF := by
      decide
    obtain ⟨d, hd, rfl⟩ := exists_digit_of_mem_toDigits (by omega) hdigit
    exact hdigits d hd

theorem writable_placeholder (kind : EntryKind) (fileId : UInt16) :
    Writable (kind.placeholder fileId) := by
  have hprefix : Writable kind.placeholderPrefix := by
    cases kind <;> simp [Writable, EntryKind.placeholderPrefix]
  intro c hc
  rw [EntryKind.placeholder, String.toList_append] at hc
  rcases List.mem_append.1 hc with hfront | hdigits
  · exact hprefix c hfront
  · exact writable_hexDigits _ _ c hdigits

theorem isEmpty_placeholder (kind : EntryKind) (fileId : UInt16) :
    (kind.placeholder fileId).isEmpty = false := by
  cases kind <;> simp [EntryKind.placeholder, EntryKind.placeholderPrefix]

end Symbols

end SoundArchive
