import SoundArchive.Proofs.Bank.Rereading

/-!
# The range that a key selects

The look-up compares a key with high notes, or counts from the first note of a table, and never
looks at a low note. In a bank that was read it finds a range whose span has the key.
-/

namespace SoundArchive

open Bytes

variable {i : Instrument} {r : KeyRange} {ranges : List KeyRange} {low key : UInt8}

def KeyRange.Covers (r : KeyRange) (key : UInt8) : Prop := r.lowNote ≤ key ∧ key ≤ r.highNote

instance (r : KeyRange) (key : UInt8) : Decidable (r.Covers key) :=
  inferInstanceAs (Decidable (_ ∧ _))

namespace Instrument

/-- The notes of a table do not go on at 0 behind 255. -/
def Ascends : Instrument → Prop
  | noteTable low ranges => ∀ last ∈ ranges.getLast?, low ≤ last.highNote
  | _ => True

theorem rangeForKey?_noteTable : (noteTable low ranges).rangeForKey? key = some r ↔
    ∃ last, ranges.getLast? = some last ∧ (low ≤ key ∧ key ≤ last.highNote) ∧
      ranges[(key - low).toNat]? = some r := by
  cases hlast : ranges.getLast? with
  | none => simp [rangeForKey?, hlast]
  | some last => simp [rangeForKey?, hlast]

theorem rangeForKey?_mem (h : i.rangeForKey? key = some r) : r ∈ i.ranges := by
  cases i with
  | empty => cases h
  | single range =>
    obtain rfl := Option.some.inj h
    exact List.mem_singleton_self _
  | noteTable low ranges =>
    obtain ⟨_, -, -, hr⟩ := rangeForKey?_noteTable.1 h
    exact List.mem_of_getElem? hr
  | keySplit ranges => exact List.mem_of_find?_eq_some h

/-! ## Key splits -/

/-- The regions in front of the first that reaches up to the key all end below it. -/
theorem covers_of_find?
    (hspans : ranges.map KeyRange.span = regionSpans low (ranges.map (·.highNote)))
    (hlow : low ≤ key) (h : ranges.find? (fun range => key ≤ range.highNote) = some r) :
    r.Covers key := by
  induction ranges generalizing low with
  | nil => cases h
  | cons first rest ih =>
    rw [List.map_cons, List.map_cons, regionSpans] at hspans
    split at hspans
    · cases hspans
    · obtain ⟨hspan, hrest⟩ := List.cons.inj hspans
      by_cases hkey : key ≤ first.highNote
      · rw [List.find?_cons_of_pos (by simpa using hkey)] at h
        obtain rfl := Option.some.inj h
        have hfirst : first.lowNote = low := congrArg Prod.fst hspan
        exact ⟨hfirst ▸ hlow, hkey⟩
      · rw [List.find?_cons_of_neg (by simpa using hkey)] at h
        have hnext : first.highNote + 1 ≤ key := by
          rw [UInt8.le_iff_toNat_le] at hkey ⊢
          rw [UInt8.toNat_add]
          have := key.toNat_lt
          simp
          omega
        exact ih hrest hnext h

/-! ## Note tables -/

theorem span_getElem?_table (hspans : ranges.map KeyRange.span = tableSpans low ranges.length)
    {n : Nat} (h : ranges[n]? = some r) : r.span = (low + n.toUInt8, low + n.toUInt8) := by
  obtain ⟨hn, rfl⟩ := List.getElem?_eq_some_iff.1 h
  have hnth := congrArg (·[n]?) hspans
  simpa [tableSpans, hn] using hnth

theorem covers_of_table (hspans : ranges.map KeyRange.span = tableSpans low ranges.length)
    (h : (noteTable low ranges).rangeForKey? key = some r) : r.Covers key := by
  obtain ⟨_, -, -, hr⟩ := rangeForKey?_noteTable.1 h
  have hspan := span_getElem?_table hspans hr
  have hkey : low + (key - low).toNat.toUInt8 = key := by
    rw [Nat.toUInt8_eq, UInt8.ofNat_toNat, UInt8.add_comm, UInt8.sub_add_cancel]
  rw [hkey] at hspan
  have hlow : r.lowNote = key := congrArg Prod.fst hspan
  have hhigh : r.highNote = key := congrArg Prod.snd hspan
  exact ⟨hlow ▸ UInt8.le_refl key, hhigh ▸ UInt8.le_refl key⟩

theorem toNat_note {n last : Nat} (hn : n ≤ last) (hlast : last < 256)
    (hascends : low ≤ low + last.toUInt8) : (low + n.toUInt8).toNat = low.toNat + n := by
  have hlow := low.toNat_lt
  rw [UInt8.le_iff_toNat_le, UInt8.toNat_add] at hascends
  rw [UInt8.toNat_add]
  simp at hascends ⊢
  omega

/-- A table that ascends has a range for every note from its first to its last. -/
theorem rangeForKey?_of_table
    (hspans : ranges.map KeyRange.span = tableSpans low ranges.length)
    (hlength : ranges.length < 256) (hascends : (noteTable low ranges).Ascends)
    (hr : r ∈ ranges) (hkey : r.Covers key) :
    (noteTable low ranges).rangeForKey? key = some r := by
  obtain ⟨n, hn, rfl⟩ := List.getElem_of_mem hr
  have hend : ranges.length - 1 < ranges.length := by omega
  have hlast : ranges.getLast? = some ranges[ranges.length - 1] := by
    rw [List.getLast?_eq_getElem?, List.getElem?_eq_getElem hend]
  have hspan := span_getElem?_table hspans (List.getElem?_eq_getElem hn)
  have hlastNote : ranges[ranges.length - 1].highNote = low + (ranges.length - 1).toUInt8 :=
    congrArg Prod.snd (span_getElem?_table hspans (List.getElem?_eq_getElem hend))
  have hfits := hascends _ hlast
  rw [hlastNote] at hfits
  -- Both ends of the span are the same note, so that note is the key.
  obtain rfl : low + n.toUInt8 = key := by
    obtain ⟨hle, hge⟩ := hkey
    rw [show ranges[n].lowNote = _ from congrArg Prod.fst hspan] at hle
    rw [show ranges[n].highNote = _ from congrArg Prod.snd hspan] at hge
    exact UInt8.le_antisymm hle hge
  have hnote := toNat_note (n := n) (by omega) (by omega) hfits
  have hnoteLast := toNat_note (Nat.le_refl _) (by omega) hfits
  have hwithin : low ≤ low + n.toUInt8 ∧ low + n.toUInt8 ≤ ranges[ranges.length - 1].highNote := by
    rw [hlastNote, UInt8.le_iff_toNat_le, UInt8.le_iff_toNat_le, hnote, hnoteLast]
    omega
  have hindex : (low + n.toUInt8 - low).toNat = n := by
    rw [UInt8.add_comm, UInt8.add_sub_cancel]
    simp
    omega
  refine rangeForKey?_noteTable.2 ⟨_, hlast, hwithin, ?_⟩
  rw [hindex]
  exact List.getElem?_eq_getElem hn

/-- No key is behind the first note of a table that wraps and in front of its last. -/
theorem rangeForKey?_of_not_ascends (h : ¬ i.Ascends) (key : UInt8) :
    i.rangeForKey? key = none := by
  cases i with
  | empty => rfl
  | single range => exact absurd trivial h
  | noteTable low ranges =>
    rw [Option.eq_none_iff_forall_ne_some]
    intro r hr
    obtain ⟨last, hlast, ⟨hlow, hhigh⟩, -⟩ := rangeForKey?_noteTable.1 hr
    refine h fun last' hlast' => ?_
    obtain rfl := Option.some.inj (hlast.symm.trans hlast')
    exact UInt8.le_trans hlow hhigh
  | keySplit ranges => exact absurd trivial h

/-! ## Every instrument that was read -/

theorem IsDecoded.covers (hdecoded : i.IsDecoded) (hkey : key ≤ 127)
    (h : i.rangeForKey? key = some r) : r.Covers key := by
  cases i with
  | empty => cases h
  | single range =>
    obtain rfl := Option.some.inj h
    obtain ⟨hspan, -⟩ := hdecoded
    have hlow : range.lowNote = 0 := congrArg Prod.fst hspan
    have hhigh : range.highNote = 127 := congrArg Prod.snd hspan
    exact ⟨hlow ▸ UInt8.zero_le, hhigh ▸ hkey⟩
  | noteTable low ranges => exact covers_of_table hdecoded.1 h
  | keySplit ranges => exact covers_of_find? hdecoded.1 UInt8.zero_le h

theorem IsDecoded.ne_none_of_covers (hdecoded : i.IsDecoded) (hascends : i.Ascends)
    (hr : r ∈ i.ranges) (hkey : r.Covers key) : i.rangeForKey? key ≠ none := by
  cases i with
  | empty => cases hr
  | single range => exact Option.some_ne_none range
  | noteTable low ranges =>
    exact rangeForKey?_of_table hdecoded.1 hdecoded.2 hascends hr hkey ▸ Option.some_ne_none r
  | keySplit ranges =>
    intro hnone
    exact List.find?_eq_none.1 hnone r hr (by simpa using hkey.2)

end Instrument

namespace Bank

variable {body : Bytes} {b : Bank}

/-- In a bank that was read, a key selects a range of the instrument whose span has the key, if
there is one. In a note table that wraps it selects none. -/
theorem rangeForKey?_covers (hdecode : decode body = .ok b) (hi : i ∈ b.instruments)
    (hkey : key ≤ 127) :
    (∀ r, i.rangeForKey? key = some r → r ∈ i.ranges ∧ r.Covers key) ∧
      (i.Ascends → (i.rangeForKey? key = none ↔ ∀ r ∈ i.ranges, ¬ r.Covers key)) ∧
      (¬ i.Ascends → i.rangeForKey? key = none) := by
  have hdecoded := isDecoded_of_decode hdecode i hi
  have hfound (r : KeyRange) (h : i.rangeForKey? key = some r) : r ∈ i.ranges ∧ r.Covers key :=
    ⟨Instrument.rangeForKey?_mem h, hdecoded.covers hkey h⟩
  refine ⟨hfound, fun hascends => ⟨fun hnone r hr hcovers => ?_, fun hnothing => ?_⟩,
    fun hwraps => Instrument.rangeForKey?_of_not_ascends hwraps key⟩
  · exact hdecoded.ne_none_of_covers hascends hr hcovers hnone
  · rw [Option.eq_none_iff_forall_ne_some]
    intro r hr
    obtain ⟨hmem, hcovers⟩ := hfound r hr
    exact hnothing r hmem hcovers

/-- The second region of a split ends in front of the first, and the third begins there. Key 60
is in the third, and no region has key 110. -/
theorem rangeForKey?_of_unordered_split :
    let body := bodyOf [(17, 64)] (#[50, 20, 100, 0, 0, 0, 0, 0] ++ zeros 36)
    let split : Instrument := .keySplit [blankRange 0 50, blankRange 51 20, blankRange 21 100]
    (decode body = .ok ⟨[split]⟩ ∧ split ∈ [split] ∧ (60 : UInt8) ≤ 127 ∧ (110 : UInt8) ≤ 127 ∧
        split.rangeForKey? 60 = some (blankRange 21 100) ∧ split.Ascends ∧
        split.rangeForKey? 110 = none) ∧
      (blankRange 21 100).Covers 60 ∧ ∀ r ∈ split.ranges, ¬ r.Covers 110 := by
  intro body split
  have hdecode : decode body = .ok ⟨[split]⟩ := by decide +kernel
  have hmem : split ∈ [split] := List.mem_singleton_self split
  have hfound : split.rangeForKey? 60 = some (blankRange 21 100) := by decide
  have hnone : split.rangeForKey? 110 = none := by decide
  exact ⟨⟨hdecode, hmem, by decide, by decide, hfound, trivial, hnone⟩,
    ((rangeForKey?_covers hdecode hmem (by decide)).1 _ hfound).2,
    ((rangeForKey?_covers hdecode hmem (by decide)).2.1 trivial).1 hnone⟩

end Bank

end SoundArchive
