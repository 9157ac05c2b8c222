import SoundArchive.Proofs.Sequence.Reading
import SoundArchive.Sequence.Splice

/-! # Correcting branch targets changes the branch operands and nothing else -/

namespace SoundArchive

namespace Splice

open Bytecode

/-! ## Writing three bytes -/

section Write

variable {code : Bytes} {p : Nat}

@[simp] theorem size_writeU24 (code : Bytes) (p : Nat) (value : UInt32) :
    (writeU24 code p value).size = code.size := by
  simp [writeU24]

theorem writeU24_of_outside {i : Nat} (value : UInt32) (h : i < p ∨ p + 3 ≤ i) :
    (writeU24 code p value)[i]? = code[i]? := by
  unfold writeU24
  rw [Array.getElem?_setIfInBounds_ne (by omega), Array.getElem?_setIfInBounds_ne (by omega),
    Array.getElem?_setIfInBounds_ne (by omega)]

/-- A word of 24 bits is made of its three lower bytes. -/
theorem or_lower_bytes {v : UInt32} (h : v.toNat < 2 ^ 24) :
    v.toUInt8.toUInt32 ||| (v >>> 8).toUInt8.toUInt32 <<< 8
      ||| (v >>> 16).toUInt8.toUInt32 <<< 16 = v := by
  apply UInt32.toBitVec_inj.1
  change (v.toBitVec.setWidth 8).setWidth 32 ||| ((v.toBitVec >>> 8).setWidth 8).setWidth 32 <<< 8
    ||| ((v.toBitVec >>> 16).setWidth 8).setWidth 32 <<< 16 = v.toBitVec
  ext i hi
  simp only [BitVec.getElem_or, BitVec.getElem_shiftLeft, BitVec.getElem_setWidth,
    BitVec.getLsbD_setWidth, BitVec.getLsbD_ushiftRight]
  rw [← BitVec.getLsbD_eq_getElem hi]
  by_cases h8 : i < 8
  · simp [h8, show i < 16 by omega]
  · have hmiddle : 8 + (i - 8) = i := by omega
    by_cases h16 : i < 16
    · simp [h8, h16, hmiddle, show i - 8 < 8 by omega]
    · have hhigh : 16 + (i - 16) = i := by omega
      by_cases h24 : i < 24
      · simp [h8, h16, hhigh, show ¬ i - 8 < 8 by omega, show i - 16 < 8 by omega]
      · have htop : v.toBitVec.getLsbD i = false :=
          Nat.testBit_lt_two_pow (h.trans_le (Nat.pow_le_pow_right (by omega) (by omega)))
        simp [h8, h16, htop, show ¬ i - 8 < 8 by omega, show ¬ i - 16 < 8 by omega]

theorem readU24_writeU24 {v : UInt32} (hbound : p + 3 ≤ code.size) (hv : v.toNat < 2 ^ 24) :
    readU24 (writeU24 code p v) p = .ok (v, p + 3) := by
  have hlow : byteAt (writeU24 code p v) p = .ok v.toUInt8 := by
    rw [byteAt_eq_ok, writeU24, Array.getElem?_setIfInBounds_ne (by omega),
      Array.getElem?_setIfInBounds_ne (by omega),
      Array.getElem?_setIfInBounds_self_of_lt (by omega)]
  have hmiddle : byteAt (writeU24 code p v) (p + 1) = .ok (v >>> 8).toUInt8 := by
    rw [byteAt_eq_ok, writeU24, Array.getElem?_setIfInBounds_ne (by omega),
      Array.getElem?_setIfInBounds_self_of_lt (by simp; omega)]
  have hhigh : byteAt (writeU24 code p v) (p + 2) = .ok (v >>> 16).toUInt8 := by
    rw [byteAt_eq_ok, writeU24, Array.getElem?_setIfInBounds_self_of_lt (by simp; omega)]
  rw [readU24, hlow, hmiddle, hhigh]
  simp only [bind, Except.bind, pure, Except.pure, or_lower_bytes hv]

end Write

/-! ## All branches -/

/-- The branch operands at `positions` hold the shifted targets, and all other bytes are what
they were. -/
structure Retargeted (operand : Nat) (delta : Int) (positions : List Nat) (code code' : Bytes) :
    Prop where
  size : code'.size = code.size
  targets : ∀ p ∈ positions, ∀ t, readU24 code p = .ok (t, p + 3) →
    ∃ t', readU24 code' p = .ok (t', p + 3) ∧ t'.toNat = shifted operand delta t.toNat
  others : ∀ i, (∀ p ∈ positions, i < p ∨ p + 3 ≤ i) → code'[i]? = code[i]?

variable {operand p : Nat} {delta : Int} {positions : List Nat} {code code' code'' : Bytes}

theorem copied_of_others (hapart : ∀ q ∈ positions, p + 3 ≤ q ∨ q + 3 ≤ p)
    (h : ∀ i, (∀ q ∈ positions, i < q ∨ q + 3 ≤ i) → code'[i]? = code[i]?) :
    Copied code p (p + 3) code' p := by
  intro i hi
  apply h
  intro q hq
  have := hapart q hq
  omega

theorem Retargeted.cons (hp : Retargeted operand delta [p] code code')
    (hrest : Retargeted operand delta positions code' code'')
    (hapart : ∀ q ∈ positions, p + 3 ≤ q ∨ q + 3 ≤ p) :
    Retargeted operand delta (p :: positions) code code'' where
  size := hrest.size.trans hp.size
  targets q hq t ht := by
    rcases List.mem_cons.1 hq with rfl | hq
    · obtain ⟨t', ht', hshifted⟩ := hp.targets q List.mem_cons_self t ht
      exact ⟨t', readU24_copied (copied_of_others hapart hrest.others) ht', hshifted⟩
    · have hcopied : Copied code q (q + 3) code' q := by
        have hp' : ∀ r ∈ [p], q + 3 ≤ r ∨ r + 3 ≤ q := by
          intro r hr
          cases List.mem_singleton.1 hr
          exact (hapart q hq).symm
        exact copied_of_others hp' hp.others
      exact hrest.targets q hq t (readU24_copied hcopied ht)
  others i hi := by
    rw [hrest.others i fun q hq => hi q (List.mem_cons_of_mem _ hq)]
    apply hp.others
    intro q hq
    cases List.mem_singleton.1 hq
    exact hi p List.mem_cons_self

theorem Retargeted.unchanged {t : UInt32} (ht : readU24 code p = .ok (t, p + 3))
    (hle : t.toNat ≤ operand) : Retargeted operand delta [p] code code where
  size := rfl
  targets q hq t' ht' := by
    cases List.mem_singleton.1 hq
    rw [ht] at ht'
    cases ht'
    exact ⟨t, ht, (if_neg (by omega)).symm⟩
  others _ _ := rfl

theorem Retargeted.written {t : UInt32} (ht : readU24 code p = .ok (t, p + 3))
    (hbound : p + 3 ≤ code.size) (hlt : operand < t.toNat)
    (hmax : moved t.toNat delta ≤ maxTarget) :
    Retargeted operand delta [p] code (writeU24 code p (moved t.toNat delta).toUInt32) where
  size := size_writeU24 ..
  targets q hq t' ht' := by
    cases List.mem_singleton.1 hq
    rw [ht] at ht'
    cases ht'
    have hnat : (moved t.toNat delta).toUInt32.toNat = moved t.toNat delta :=
      Bytes.toNat_toUInt32 (by unfold maxTarget at hmax; omega)
    refine ⟨_, readU24_writeU24 hbound ?_, ?_⟩
    · rw [hnat]
      unfold maxTarget at hmax
      omega
    · rw [hnat]
      exact (if_pos hlt).symm
  others i hi := writeU24_of_outside _ (hi p List.mem_cons_self)

/-- Branch operands that do not overlap are corrected one by one. -/
theorem retargeted_of_ok (hbound : ∀ p ∈ positions, p + 3 ≤ code.size)
    (hapart : positions.Pairwise fun p q => p + 3 ≤ q ∨ q + 3 ≤ p)
    (h : retarget operand delta code positions = (code', .ok ())) :
    Retargeted operand delta positions code code' := by
  induction positions generalizing code with
  | nil =>
    cases h
    exact ⟨rfl, by simp, fun _ _ => rfl⟩
  | cons p rest ih =>
    rw [List.pairwise_cons] at hapart
    have hp := hbound p List.mem_cons_self
    have hrest : ∀ q ∈ rest, q + 3 ≤ code.size := fun q hq => hbound q (List.mem_cons_of_mem _ hq)
    obtain ⟨t, ht⟩ := readU24_of_le hp
    simp only [retarget, ht] at h
    split at h
    · next hle => exact (Retargeted.unchanged ht hle).cons (ih hrest hapart.2 h) hapart.1
    · next hlt =>
      split at h
      · cases h
      · next hmax =>
        refine (Retargeted.written ht hp (by omega) (by omega)).cons ?_ hapart.1
        exact ih (by simpa using hrest) hapart.2 h

theorem size_retarget (operand : Nat) (delta : Int) (code : Bytes) (positions : List Nat) :
    (retarget operand delta code positions).1.size = code.size := by
  fun_induction retarget operand delta code positions <;> simp_all

/-- Without a change of length the targets are right as they are. -/
theorem Retargeted.of_zero (operand : Nat) (positions : List Nat) (code : Bytes) :
    Retargeted operand 0 positions code code where
  size := rfl
  targets p _ t ht := by
    refine ⟨t, ht, ?_⟩
    have := t.toNat_lt
    unfold shifted moved
    split <;> omega
  others _ _ := rfl

end Splice

end SoundArchive
