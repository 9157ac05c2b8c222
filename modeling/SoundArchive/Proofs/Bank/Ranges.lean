import SoundArchive.Bank.Body
import SoundArchive.Proofs.Binary.Headers

/-! # Reading back the ranges of an instrument, and the spans that they are stored without -/

namespace SoundArchive

open Bytes

variable {body : Bytes} {offset : Nat} {r : KeyRange} {low high : UInt8} {record : UInt16}

/-! ## Ranges -/

namespace KeyRange

@[simp] theorem size_encode (r : KeyRange) : r.encode.size = length := by
  simp [encode, length]

@[simp] theorem size_encodeWithRecord (r : KeyRange) :
    r.encodeWithRecord.size = Instrument.recordedLength := by
  rw [encodeWithRecord, Array.size_append, size_encode, size_ofU16, Instrument.recordedLength]

theorem read?_of_at (h : At body offset r.encode) :
    read? body offset r.lowNote r.highNote r.record = some r := by
  have hwave := h.left.left.u16?
  have hwaveArchive := h.left.right.u16?
  have hbyte (i : Nat) (hi : i < 6) : body[offset + (4 + i)]?
      = #[r.baseNote, r.attack, r.decay, r.sustain, r.release, r.pan][i]? := by
    rw [← Nat.add_assoc]
    exact h.right.getElem? hi
  rw [size_ofU16] at hwaveArchive
  simp [read?, hwave, hwaveArchive, hbyte 0, hbyte 1, hbyte 2, hbyte 3, hbyte 4, hbyte 5]

theorem readWithRecord?_of_at (h : At body offset r.encodeWithRecord) :
    readWithRecord? body offset r.lowNote r.highNote = some r := by
  have hrecord := h.left.u16?
  have hread := read?_of_at h.right
  rw [size_ofU16] at hread
  simp [readWithRecord?, hrecord, hread]

/-- The notes that a range stands for. -/
def span (r : KeyRange) : UInt8 × UInt8 := (r.lowNote, r.highNote)

theorem span_of_read? (h : read? body offset low high record = some r) :
    r.span = (low, high) ∧ r.record = record := by
  simp only [read?, Option.bind_eq_bind, Option.bind_eq_some_iff, Option.pure_def,
    Option.some.injEq] at h
  obtain ⟨_, -, _, -, _, -, _, -, _, -, _, -, _, -, _, -, rfl⟩ := h
  exact ⟨rfl, rfl⟩

theorem span_of_readWithRecord? (h : readWithRecord? body offset low high = some r) :
    r.span = (low, high) := by
  obtain ⟨record, -, hread⟩ := Option.bind_eq_some_iff.1 h
  exact (span_of_read? hread).1

end KeyRange

namespace Instrument

variable {ranges : List KeyRange} {i : Nat}

theorem readWithRecord?_of_at_concat
    (h : At body offset (concat (ranges.map KeyRange.encodeWithRecord))) (hi : i < ranges.length) :
    KeyRange.readWithRecord? body (offset + i * recordedLength) ranges[i].lowNote
      ranges[i].highNote = some ranges[i] := by
  have hrange := h.concat_getElem recordedLength (i := i) (by simp) (by simpa using hi)
  rw [List.getElem_map, Nat.mul_comm] at hrange
  exact KeyRange.readWithRecord?_of_at hrange

/-! ## Regions -/

theorem regionSpans_length_le (low : UInt8) (regions : List UInt8) :
    (regionSpans low regions).length ≤ regions.length := by
  induction regions generalizing low with
  | nil => exact Nat.le_refl 0
  | cons high rest ih =>
    rw [regionSpans]
    split
    · exact Nat.zero_le _
    · exact Nat.succ_le_succ (ih (high + 1))

/-- Zeros behind the regions that are used change nothing. -/
theorem regionSpans_padded (low : UInt8) (regions : List UInt8) (padding : Nat) :
    regionSpans low ((regionSpans low regions).map (·.2) ++ List.replicate padding 0)
      = regionSpans low regions := by
  induction regions generalizing low with
  | nil => cases padding <;> rfl
  | cons high rest ih =>
    rw [regionSpans]
    split
    · cases padding <;> rfl
    · next hhigh => simp [regionSpans, hhigh, ih]

end Instrument

end SoundArchive
