import SoundArchive.Binary.Header
import SoundArchive.Binary.RecordList
import SoundArchive.Proofs.Traversal
import Mathlib.Algebra.GroupWithZero.Nat

/-! # Where bytes lie in other bytes, and what is read there -/

namespace SoundArchive

namespace Bytes

/-! ## Parts -/

/-- `part` lies at `offset` in the bytes. -/
def At (bytes : Bytes) (offset : Nat) (part : Bytes) : Prop :=
  ∃ front back, bytes = front ++ part ++ back ∧ front.size = offset

variable {bytes p q : Bytes} {offset : Nat}

theorem at_self (bytes : Bytes) : At bytes 0 bytes := ⟨#[], #[], by simp, rfl⟩

theorem At.bound (h : At bytes offset p) : offset + p.size ≤ bytes.size := by
  obtain ⟨front, back, rfl, rfl⟩ := h
  simp

theorem At.trans {inner : Nat} (h : At bytes offset p) (hq : At p inner q) :
    At bytes (offset + inner) q := by
  obtain ⟨front, back, rfl, rfl⟩ := h
  obtain ⟨front', back', rfl, rfl⟩ := hq
  exact ⟨front ++ front', back' ++ back, by simp [Array.append_assoc], by simp⟩

theorem At.left (h : At bytes offset (p ++ q)) : At bytes offset p :=
  h.trans ⟨#[], q, by simp, rfl⟩

theorem At.right (h : At bytes offset (p ++ q)) : At bytes (offset + p.size) q :=
  h.trans ⟨p, #[], by simp, rfl⟩

theorem At.getElem? (h : At bytes offset p) {i : Nat} (hi : i < p.size) :
    bytes[offset + i]? = p[i]? := by
  obtain ⟨front, back, rfl, rfl⟩ := h
  rw [Array.append_assoc, Array.getElem?_append_right (by omega), Nat.add_sub_cancel_left,
    Array.getElem?_append_left hi]

theorem At.singleton {b : UInt8} (h : At bytes offset #[b]) : bytes[offset]? = some b :=
  h.getElem? (i := 0) (by simp)

theorem At.extract (h : At bytes offset p) : bytes.extract offset (offset + p.size) = p := by
  obtain ⟨front, back, rfl, rfl⟩ := h
  ext
  · simp
  · simp

theorem at_extract {stop : Nat} (hle : offset ≤ stop) (hstop : stop ≤ bytes.size) :
    At bytes offset (bytes.extract offset stop) := by
  refine ⟨bytes.extract 0 offset, bytes.extract stop bytes.size, ?_, by simp; omega⟩
  rw [Array.extract_append_extract, Nat.max_eq_right hle, Nat.zero_min,
    Array.extract_append_extract, Nat.max_eq_right hstop, Nat.zero_min, Array.extract_size]

theorem at_of_getElem? (hbound : offset + p.size ≤ bytes.size)
    (h : ∀ i < p.size, bytes[offset + i]? = p[i]?) : At bytes offset p := by
  have hpart : bytes.extract offset (offset + p.size) = p := by
    apply Array.ext_getElem?
    intro i
    rw [Array.getElem?_extract]
    split
    · exact h i (by omega)
    · rw [Array.getElem?_eq_none (by omega)]
  have hat := at_extract (Nat.le_add_right offset p.size) hbound
  rwa [hpart] at hat

/-- What lies in the bytes where `p` lies, and fits into `p`, lies in `p`. -/
theorem At.inside {inner : Nat} (h : At bytes offset p) (hq : At bytes (offset + inner) q)
    (hfit : inner + q.size ≤ p.size) : At p inner q := by
  refine at_of_getElem? hfit fun i hi => ?_
  rw [← h.getElem? (by omega), ← Nat.add_assoc]
  exact hq.getElem? hi

theorem At.range? (h : At bytes offset p) : bytes.range? offset (offset + p.size) = some p := by
  unfold Bytes.range?
  rw [if_pos ⟨by omega, h.bound⟩, h.extract]

theorem At.slice? (h : At bytes offset p) : bytes.slice? offset p.size = some p := by
  rw [Bytes.slice?, if_pos (.inr h.bound), h.extract]

theorem size_of_slice? {start count : Nat} (h : bytes.slice? start count = some p) :
    p.size = count := by
  unfold Bytes.slice? at h
  split at h
  · next hroom =>
    rw [← Option.some.inj h, Array.size_extract]
    omega
  · cases h

/-! ## Words -/

@[simp] theorem size_ofU16 (v : UInt16) : (ofU16 v).size = 2 := rfl

@[simp] theorem size_ofU32 (v : UInt32) : (ofU32 v).size = 4 := rfl

@[simp] theorem size_zeros (count : Nat) : (zeros count).size = count := Array.size_replicate

theorem toNat_toUInt32 {n : Nat} (h : n < 2 ^ 32) : n.toUInt32.toNat = n :=
  UInt32.toNat_ofNat_of_lt' h

/-- Bits are those of their lower and their upper half. -/
theorem or_halves {width : Nat} (half : Nat) (hhalf : width ≤ 2 * half) (v : BitVec width) :
    (v.setWidth half).setWidth width ||| ((v >>> half).setWidth half).setWidth width <<< half
      = v := by
  ext i hi
  rw [BitVec.getElem_or, BitVec.getElem_shiftLeft]
  by_cases hlow : i < half
  · simp [hlow, BitVec.getLsbD_eq_getElem hi]
  · have hupper : half + (i - half) = i := by omega
    simp [hlow, hupper, show i - half < half by omega, BitVec.getLsbD_eq_getElem hi]

theorem At.u16? {v : UInt16} (h : At bytes offset (ofU16 v)) : bytes.u16? offset = some v := by
  have hlow : bytes[offset]? = some v.toUInt8 := h.getElem? (show 0 < 2 by omega)
  have hhigh : bytes[offset + 1]? = some (v >>> 8).toUInt8 := h.getElem? (show 1 < 2 by omega)
  have hword : v.toUInt8.toUInt16 ||| (v >>> 8).toUInt8.toUInt16 <<< 8 = v :=
    UInt16.toBitVec_inj.1 (or_halves 8 (by omega) v.toBitVec)
  rw [Bytes.u16?, hlow, hhigh]
  exact congrArg some hword

theorem At.u32? {v : UInt32} (h : At bytes offset (ofU32 v)) : bytes.u32? offset = some v := by
  have hlow := h.left.u16?
  have hhigh := h.right.u16?
  have hword : v.toUInt16.toUInt32 ||| (v >>> 16).toUInt16.toUInt32 <<< 16 = v :=
    UInt32.toBitVec_inj.1 (or_halves 16 (by omega) v.toBitVec)
  rw [size_ofU16] at hhigh
  rw [Bytes.u32?, hlow, hhigh]
  exact congrArg some hword

theorem isSome_u16?_iff (bytes : Bytes) (offset : Nat) :
    (bytes.u16? offset).isSome ↔ offset + 2 ≤ bytes.size := by
  unfold Bytes.u16?
  by_cases hlow : offset < bytes.size
  · by_cases hhigh : offset + 1 < bytes.size
    · simp [hlow, hhigh]
      omega
    · simp [hlow, hhigh]
      omega
  · simp [hlow]
    omega

theorem u16?_append (h : offset + 2 ≤ bytes.size) (more : Bytes) :
    (bytes ++ more).u16? offset = bytes.u16? offset := by
  unfold Bytes.u16?
  rw [Array.getElem?_append_left (by omega), Array.getElem?_append_left (by omega)]

/-! ## Parts one behind the other -/

theorem foldl_append (parts : List Bytes) (front : Bytes) :
    parts.foldl (· ++ ·) front = front ++ concat parts := by
  unfold concat
  induction parts generalizing front with
  | nil => simp
  | cons part parts ih =>
    rw [List.foldl_cons, ih, List.foldl_cons, ih (#[] ++ part)]
    simp [Array.append_assoc]

@[simp] theorem concat_nil : concat [] = #[] := rfl

@[simp] theorem concat_cons (part : Bytes) (parts : List Bytes) :
    concat (part :: parts) = part ++ concat parts := by
  rw [concat, List.foldl_cons, foldl_append]
  simp

@[simp] theorem concat_append (parts parts' : List Bytes) :
    concat (parts ++ parts') = concat parts ++ concat parts' := by
  rw [concat, List.foldl_append, foldl_append]
  rfl

theorem size_concat (width : Nat) {parts : List Bytes} (h : ∀ part ∈ parts, part.size = width) :
    (concat parts).size = width * parts.length := by
  induction parts with
  | nil => rfl
  | cons part parts ih =>
    have hrest := ih fun part' hpart' => h part' (List.mem_cons_of_mem _ hpart')
    rw [concat_cons, Array.size_append, hrest, h part List.mem_cons_self, List.length_cons,
      Nat.mul_succ, Nat.add_comm]

theorem size_concat_eq_sum (parts : List Bytes) :
    (concat parts).size = (parts.map Array.size).sum := by
  induction parts with
  | nil => rfl
  | cons part rest ih => simp [ih]

theorem At.concat_part {parts : List Bytes} {part : Bytes} {i : Nat}
    (h : At bytes offset (concat parts)) (hi : parts[i]? = some part) :
    At bytes (offset + ((parts.take i).map Array.size).sum) part := by
  induction parts generalizing offset i with
  | nil => cases hi
  | cons first rest ih =>
    rw [concat_cons] at h
    cases i with
    | zero =>
      cases hi
      exact h.left
    | succ i =>
      have hrest := ih h.right hi
      rwa [Nat.add_assoc, ← List.sum_cons, ← List.map_cons, ← List.take_succ_cons] at hrest

/-- Where parts of one width lie. -/
theorem At.concat_getElem {parts : List Bytes} (h : At bytes offset (concat parts)) (width : Nat)
    {i : Nat} (hwidth : ∀ part ∈ parts, part.size = width) (hi : i < parts.length) :
    At bytes (offset + width * i) parts[i] := by
  induction parts generalizing offset i with
  | nil => cases hi
  | cons part parts ih =>
    rw [concat_cons] at h
    cases i with
    | zero => exact h.left
    | succ i =>
      have hrest := ih h.right (fun part' hpart' => hwidth part' (List.mem_cons_of_mem _ hpart'))
        (Nat.lt_of_succ_lt_succ hi)
      rw [hwidth part List.mem_cons_self, Nat.add_assoc, Nat.add_comm width, ← Nat.mul_succ]
        at hrest
      exact hrest

@[simp] theorem size_ofU32s (values : List UInt32) : (ofU32s values).size = 4 * values.length := by
  rw [ofU32s, size_concat 4 (by simp), List.length_map]

theorem At.ofU32s_getElem {values : List UInt32} {i : Nat} (h : At bytes offset (ofU32s values))
    (hi : i < values.length) : At bytes (offset + 4 * i) (ofU32 values[i]) := by
  have hword := h.concat_getElem 4 (i := i) (by simp) (by simpa using hi)
  rwa [List.getElem_map] at hword

theorem At.u32s? {values : List UInt32} (h : At bytes offset (ofU32s values)) :
    bytes.u32s? offset values.length = some values := by
  have hbound := h.bound
  rw [size_ofU32s] at hbound
  rw [Bytes.u32s?, if_pos (.inr hbound)]
  exact mapM_eq_pure (forall₂_range fun i hi => (h.ofU32s_getElem hi).u32?)

end Bytes

end SoundArchive
