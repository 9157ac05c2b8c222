import Mathlib.Algebra.GroupWithZero.Nat
import SoundArchive.Archive.Sections
import SoundArchive.Proofs.Archive.Slots
import SoundArchive.Proofs.Binary.Headers

/-! # Reading back the places and the lists that an archive is written with -/

namespace SoundArchive

open Bytes

variable {data bytes : Bytes} {offset start : Nat}

@[simp] theorem DecodeError.required_some {α : Type} (value : α) :
    DecodeError.required (some value) = .ok value := rfl

/-! ## Places -/

namespace Place

@[simp] theorem size_encode (p : Place) : p.encode.size = 8 := rfl

theorem read?_of_at {p : Place} (h : At bytes offset p.encode) :
    Place.read? bytes offset = some p := by
  have hoffset := h.left.u32?
  have hlength := h.right.u32?
  rw [size_ofU32] at hlength
  simp [Place.read?, hoffset, hlength]

theorem readSection_of_at {p : Place} {tag : Tag} {minimum : Nat}
    (h : At data p.offset.toNat bytes) (hlength : p.length.toNat = bytes.size)
    (hminimum : minimum ≤ bytes.size) (htag : At bytes 0 tag.toArray) :
    p.readSection data tag minimum = .ok bytes := by
  have hrange := h.range?
  rw [← hlength] at hrange hminimum
  simp [readSection, Nat.not_lt.2 hminimum, hrange, Tag.read?_of_at htag, pure, Except.pure]

end Place

/-! ## Lists of records -/

namespace RecordList

variable {slots : Slots Bytes}

@[simp] theorem length_offsetsFrom {α : Type} (size : α → Nat) (offset : Nat)
    (slots : List (Option α)) : (offsetsFrom size offset slots).length = slots.length := by
  induction slots generalizing offset with
  | nil => rfl
  | cons slot rest ih => cases slot <;> simp [offsetsFrom, ih]

@[simp] theorem size_encode {α : Type} (size : α → Nat) (offset : Nat) (slots : List (Option α)) :
    (encode size offset slots).size = length slots := by
  simp [encode, length]

theorem recordsLength_eq (slots : Slots Bytes) :
    recordsLength Array.size slots = (concat slots.live).size := by
  unfold recordsLength Slots.live
  induction slots.filterMap id with
  | nil => rfl
  | cons record records ih => simp [ih]

/-- A list of records is stored at `start`, and its records from `offset` on. -/
structure Stored (bytes : Bytes) (start offset : Nat) (slots : Slots Bytes) : Prop where
  list : At bytes start (encode Array.size offset slots)
  records : At bytes offset (concat slots.live)

theorem Stored.offsets? (h : Stored bytes start offset slots) (hsize : bytes.size < 2 ^ 32) :
    offsets? bytes start = some (offsetsFrom Array.size offset slots) := by
  have hbound := h.list.bound
  rw [size_encode, length] at hbound
  have hcount : slots.length.toUInt32.toNat = slots.length := toNat_toUInt32 (by omega)
  have hoffsets := h.list.right.u32s?
  rw [size_ofU32, length_offsetsFrom] at hoffsets
  simp [RecordList.offsets?, h.list.left.u32?, hcount, hoffsets]

theorem Stored.mapM_offsetsFrom {α ε : Type} {encode : α → Bytes}
    {read : UInt32 → Except ε (Option α)} {slots : Slots α}
    (h : At bytes offset (concat (slots.mapLive encode).live)) (hsize : bytes.size < 2 ^ 32)
    (hpos : 0 < offset) (hnone : read 0 = .ok none)
    (hsome : ∀ a ∈ slots.live, ∀ p : UInt32, p ≠ 0 → At bytes p.toNat (encode a) →
      read p = .ok (some a)) :
    (offsetsFrom Array.size offset (slots.mapLive encode)).mapM read = .ok slots := by
  induction slots generalizing offset with
  | nil => rfl
  | cons slot rest ih =>
    cases slot with
    | none =>
      have hrest := ih h hpos hsome
      simp only [Slots.mapLive, List.map_cons, Option.map_none, offsetsFrom, List.mapM_cons,
        hnone] at hrest ⊢
      rw [hrest]
      rfl
    | some a =>
      have hat : At bytes offset (encode a ++ concat (Slots.mapLive encode rest).live) := by
        simpa [Slots.mapLive, Slots.live] using h
      have hrest := ih hat.right (by omega)
        fun a' ha' => hsome a' (by simpa [Slots.live] using .inr (by simpa [Slots.live] using ha'))
      have hbound := hat.left.bound
      have hoffset : offset.toUInt32.toNat = offset := toNat_toUInt32 (by omega)
      have hne : offset.toUInt32 ≠ 0 := by
        intro hzero
        rw [hzero] at hoffset
        simp at hoffset
        omega
      have hread := hsome a (by simp [Slots.live]) offset.toUInt32 hne (hoffset.symm ▸ hat.left)
      simp only [Slots.mapLive, List.map_cons, Option.map_some, offsetsFrom, List.mapM_cons,
        hread] at hrest ⊢
      rw [hrest]
      rfl

/-! ## Sections of lists -/

theorem recordsLength_append (slots rest : Slots Bytes) :
    recordsLength Array.size (slots ++ rest)
      = recordsLength Array.size slots + recordsLength Array.size rest := by
  simp [recordsLength_eq, Slots.live_append]

theorem getElem?_startsFrom {lists : List (Slots Bytes)} {n : Nat} (hn : n < lists.length) :
    (startsFrom start lists)[n]? = some (start + ((lists.take n).map length).sum).toUInt32 := by
  induction lists generalizing start n with
  | nil => cases hn
  | cons slots rest ih =>
    cases n with
    | zero => rfl
    | succ n =>
      rw [startsFrom, List.getElem?_cons_succ, ih (Nat.lt_of_succ_lt_succ hn)]
      simp [Nat.add_assoc]

/-- Every list is stored behind the lists before it, and its records behind those of these. -/
theorem stored_getElem {lists : List (Slots Bytes)} {n : Nat}
    (hlists : At bytes start (encodeFrom offset lists))
    (hrecords : At bytes offset (concat (Slots.live lists.flatten))) (hn : n < lists.length) :
    Stored bytes (start + ((lists.take n).map length).sum)
      (offset + recordsLength Array.size (lists.take n).flatten) lists[n] := by
  induction lists generalizing start offset n with
  | nil => cases hn
  | cons slots rest ih =>
    rw [List.flatten_cons, Slots.live_append, concat_append] at hrecords
    cases n with
    | zero => exact ⟨hlists.left, hrecords.left⟩
    | succ n =>
      have hlists' := hlists.right
      have hrecords' := hrecords.right
      rw [size_encode] at hlists'
      rw [← recordsLength_eq] at hrecords'
      have hrest := ih hlists' hrecords' (Nat.lt_of_succ_lt_succ hn)
      rw [List.take_succ_cons, List.map_cons, List.sum_cons, List.flatten_cons,
        recordsLength_append, ← Nat.add_assoc, ← Nat.add_assoc]
      exact hrest

theorem length_startsFrom (start : Nat) (lists : List (Slots Bytes)) :
    (startsFrom start lists).length = lists.length := by
  induction lists generalizing start with
  | nil => rfl
  | cons slots rest ih => simp [startsFrom, ih]

theorem size_encodeFrom (offset : Nat) (lists : List (Slots Bytes)) :
    (encodeFrom offset lists).size = (lists.map length).sum := by
  induction lists generalizing offset with
  | nil => rfl
  | cons slots rest ih => simp [encodeFrom, ih]

theorem foldr_length (lists : List (Slots Bytes)) :
    lists.foldr (fun slots total => length slots + total) 0 = (lists.map length).sum := by
  induction lists with
  | nil => rfl
  | cons slots rest ih => simp [ih]

/-- The bytes of a section in front of its lists. -/
def sectionHeader (tag : Tag) (size : UInt32) (lists : List (Slots Bytes)) : Bytes :=
  tag.toArray ++ ofU32 size ++ ofU32s (startsFrom sectionHeaderLength lists)
    ++ zeros (sectionHeaderLength - (startsOffset + 4 * lists.length))

theorem size_sectionHeader (tag : Tag) (size : UInt32) {lists : List (Slots Bytes)}
    (hcount : lists.length ≤ 14) : (sectionHeader tag size lists).size = sectionHeaderLength := by
  simp [sectionHeader, length_startsFrom, sectionHeaderLength, startsOffset]
  omega

theorem at_tag_of_section {tag : Tag} {lists : List (Slots Bytes)}
    (h : At bytes 0 (encodeSection tag lists)) : At bytes 0 tag.toArray :=
  h.left.left.left.left.left

theorem sectionHeaderLength_le {tag : Tag} {lists : List (Slots Bytes)}
    (hcount : lists.length ≤ 14) (h : At bytes 0 (encodeSection tag lists)) :
    sectionHeaderLength ≤ bytes.size := by
  have hbound := h.left.left.bound
  rw [← sectionHeader, size_sectionHeader _ _ hcount] at hbound
  omega

/-- Where the `n`th list of a section starts: behind the lists before it. -/
def listStart (lists : List (Slots Bytes)) (n : Nat) : Nat :=
  sectionHeaderLength + ((lists.take n).map length).sum

/-- Where the record in slot `i` of the `n`th list lies: behind all lists, and behind the records
of all slots before its own. -/
def recordStart (lists : List (Slots Bytes)) (n i : Nat) : Nat :=
  sectionHeaderLength + (lists.map length).sum
    + recordsLength Array.size ((lists.take n).flatten ++ (lists[n]?.getD []).take i)

theorem stored_of_section_getElem {tag : Tag} {lists : List (Slots Bytes)} {n : Nat}
    (h : At bytes 0 (encodeSection tag lists)) (hcount : lists.length ≤ 14)
    (hn : n < lists.length) :
    At bytes (startsOffset + 4 * n) (ofU32 (listStart lists n).toUInt32) ∧
      Stored bytes (listStart lists n) (recordStart lists n 0) lists[n] := by
  have hlists := h.left.right
  have hrecords := h.right
  rw [foldr_length] at hlists
  rw [← sectionHeader, size_sectionHeader _ _ hcount, Nat.zero_add] at hlists
  rw [Array.size_append, ← sectionHeader, size_sectionHeader _ _ hcount, size_encodeFrom,
    Nat.zero_add] at hrecords
  have hn' : n < (startsFrom sectionHeaderLength lists).length := by rwa [length_startsFrom]
  have hword := h.left.left.left.right.ofU32s_getElem hn'
  have hstart : (startsFrom sectionHeaderLength lists)[n]? = some (listStart lists n).toUInt32 :=
    getElem?_startsFrom hn
  rw [List.getElem?_eq_getElem hn', Option.some.injEq] at hstart
  rw [hstart, Array.size_append, Vector.size_toArray, size_ofU32, Nat.zero_add] at hword
  refine ⟨hword, ?_⟩
  rw [listStart, recordStart, List.take_zero, List.append_nil]
  exact stored_getElem hlists hrecords hn

theorem stored_of_section {tag : Tag} {lists : List (Slots Bytes)} {n : Nat}
    {slots : Slots Bytes} (h : At bytes 0 (encodeSection tag lists))
    (hsize : bytes.size < 2 ^ 32) (hcount : lists.length ≤ 14) (hslots : lists[n]? = some slots) :
    ∃ start offset, start? bytes n = .ok start ∧ 0 < start ∧ 0 < offset ∧
      Stored bytes start offset slots := by
  obtain ⟨hn, rfl⟩ := List.getElem?_eq_some_iff.1 hslots
  obtain ⟨hword, hstored⟩ := stored_of_section_getElem h hcount hn
  have hbound := hstored.list.bound
  rw [size_encode, length] at hbound
  have hstart : (listStart lists n).toUInt32.toNat = listStart lists n :=
    toNat_toUInt32 (by omega)
  have hpos : 0 < sectionHeaderLength := by decide
  refine ⟨listStart lists n, recordStart lists n 0, ?_, ?_, ?_, hstored⟩
  · simp [start?, hword.u32?, hstart, pure, Except.pure]
  · unfold listStart
    omega
  · unfold recordStart
    omega

end RecordList

end SoundArchive
