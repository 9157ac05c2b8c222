import SoundArchive.Binary.Resource
import SoundArchive.Proofs.Binary.Placement

/-! # Reading back headers, and the front of a resource -/

namespace SoundArchive

open Bytes

variable {bytes body : Bytes} {offset : Nat}

/-! ## Headers -/

theorem Tag.read?_of_at {tag : Tag} (h : At bytes offset tag.toArray) :
    Tag.read? bytes offset = some tag := by
  have hchar (i : Nat) (hi : i < 4) : bytes[offset + i]? = some tag[i] := by
    rw [h.getElem? (by simpa using hi), Array.getElem?_eq_getElem (by simpa using hi)]
    rfl
  have h0 : bytes[offset]? = some tag[0] := hchar 0 (by omega)
  simp only [Tag.read?, h0, hchar 1 (by omega), hchar 2 (by omega), hchar 3 (by omega)]
  refine congrArg some (Vector.ext fun i hi => ?_)
  match i, hi with
  | 0, _ | 1, _ | 2, _ | 3, _ => rfl

theorem Header.size_encode (h : Header) : h.encode.size = Header.length := by
  simp [Header.encode, Header.length]

theorem Header.read?_of_at {h : Header} (hat : At bytes offset h.encode) :
    Header.read? bytes offset = some h := by
  have hblocks := hat.right.u16?
  have hheaderSize := hat.left.right.u16?
  have hfileSize := hat.left.left.right.u32?
  have hmagic := hat.left.left.left.right.u32?
  have htag := Tag.read?_of_at hat.left.left.left.left
  simp only [Array.size_append, Vector.size_toArray, size_ofU32, size_ofU16] at hblocks hheaderSize
  simp only [Array.size_append, Vector.size_toArray, size_ofU32] at hfileSize hmagic
  simp [Header.read?, hblocks, hheaderSize, hfileSize, hmagic, htag]

/-! ## Resources -/

namespace Resource

@[simp] theorem required_some {α : Type} (value : α) : required (some value) = .ok value := rfl

theorem required_eq_ok {α : Type} {field : Option α} {value : α} :
    required field = .ok value ↔ field = some value := by
  cases field <;> simp [required]

theorem size_prologue (tag : Tag) (total : Nat) : (prologue tag total).size = prologueLength := by
  simp [prologue, Header.size_encode, prologueLength]

theorem header_of_at {tag : Tag} {total : Nat} (h : At body 0 (prologue tag total)) :
    Header.read? body 0
      = some (.standard tag total.toUInt32 Header.length.toUInt16 1) :=
  Header.read?_of_at h.left.left

theorem readPrologue_of_at {tag : Tag} {total : Nat} (h : At body 0 (prologue tag total)) :
    readPrologue body tag = .ok (total - Header.length).toUInt32 := by
  have htag := Tag.read?_of_at h.left.right
  have hlength := h.right.u32?
  simp only [Array.size_append, Header.size_encode, Vector.size_toArray, Nat.zero_add]
    at htag hlength
  simp [readPrologue, header_of_at h, Header.verify, Header.standard, htag, hlength]

end Resource

end SoundArchive
