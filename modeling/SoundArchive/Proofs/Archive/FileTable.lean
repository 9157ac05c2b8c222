import SoundArchive.Archive.FileTable
import SoundArchive.Proofs.Archive.Sections

/-! # The file table is read back, and its records lead to the files -/

namespace SoundArchive

open Bytes

variable {bytes data : Bytes} {offset : Nat}

namespace FileRecord

@[simp] theorem size_encode (r : FileRecord) : r.encode.size = FileRecord.length := by
  simp [encode, FileRecord.length, reservedLength]

theorem read?_of_at {r : FileRecord} (h : At bytes offset r.encode) :
    FileRecord.read? bytes offset = some r := by
  have hsize := h.left.right.u32?
  rw [size_ofU32] at hsize
  simp [FileRecord.read?, h.left.left.u32?, hsize]

end FileRecord

namespace FileTable

/-! ## The table -/

theorem size_encode (records : List FileRecord) :
    (encode records).size = headerLength + FileRecord.length * records.length := by
  have hrecords : (concat (records.map FileRecord.encode)).size
      = FileRecord.length * records.length := by
    rw [size_concat FileRecord.length (by simp), List.length_map]
  simp [encode, headerLength, hrecords]
  omega

theorem decode_encode {records : List FileRecord} (hsize : (encode records).size < 2 ^ 32) :
    decode (encode records) = .ok records := by
  have htable := at_self (encode records)
  rw [size_encode] at hsize
  unfold headerLength FileRecord.length FileRecord.reservedLength at hsize
  have hcount := htable.left.right.u32?
  simp only [Array.size_append, Vector.size_toArray, size_ofU32, Nat.zero_add] at hcount
  have hnat : records.length.toUInt32.toNat = records.length := toNat_toUInt32 (by omega)
  have hrecords : readRecords? (encode records) records.length = some records := by
    rw [readRecords?, if_pos (.inr (by rw [size_encode]; omega))]
    refine mapM_eq_pure (forall₂_range fun i hi => ?_)
    have hrecord := htable.right.concat_getElem FileRecord.length (i := i) (by simp)
      (by simpa using hi)
    simp only [Array.size_append, Vector.size_toArray, size_ofU32, Nat.zero_add,
      List.getElem_map] at hrecord
    exact FileRecord.read?_of_at hrecord
  simp [decode, hcount, hnat, hrecords]

/-! ## The files -/

@[simp] theorem length_recordsFrom (offset : Nat) (sizes : List Nat) :
    (recordsFrom offset sizes).length = sizes.length := by
  induction sizes generalizing offset with
  | nil => rfl
  | cons size rest ih => simp [recordsFrom, ih]

theorem range?_recordsFrom {bodies : List Bytes} {n : Nat} {body : Bytes}
    (h : At data offset (concat bodies)) (hsize : data.size < 2 ^ 32)
    (hbody : bodies[n]? = some body) :
    ∃ record, (recordsFrom offset (bodies.map Array.size))[n]? = some record ∧
      data.range? record.start record.stop = some body := by
  induction bodies generalizing offset n with
  | nil => cases hbody
  | cons first rest ih =>
    rw [concat_cons] at h
    cases n with
    | zero =>
      cases hbody
      have hbound := h.left.bound
      refine ⟨_, rfl, ?_⟩
      simp only [FileRecord.start, FileRecord.stop]
      rw [toNat_toUInt32 (by omega), toNat_toUInt32 (by omega)]
      exact h.left.range?
    | succ n => exact ih h.right hbody

end FileTable

end SoundArchive
