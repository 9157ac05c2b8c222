import SoundArchive.Proofs.Binary.Placement
import SoundArchive.Proofs.Sequence.Decoding

/-! # Numbers read back as they were written, and wherever their bytes were moved to -/

namespace SoundArchive

namespace Bytecode

variable {code code' : Bytes} {p p' q : Nat}

theorem byteAt_eq_ok {b : UInt8} : byteAt code p = .ok b ↔ code[p]? = some b := by
  unfold byteAt
  cases code[p]? <;> simp

/-! ## Numbers that were written -/

/-- The mark adds nothing to the seven bits below it. -/
theorem marked_byte {n : Nat} (h : n < 128) :
    (n.toUInt8 ||| 0x80) &&& 0x80 ≠ 0 ∧ ((n.toUInt8 ||| 0x80) &&& 0x7F).toNat = n ∧
      n.toUInt8 &&& 0x80 = 0 ∧ (n.toUInt8 &&& 0x7F).toNat = n := by
  have hbytes : ∀ n : Fin 128, (n.val.toUInt8 ||| 0x80) &&& 0x80 ≠ 0 ∧
      ((n.val.toUInt8 ||| 0x80) &&& 0x7F).toNat = n.val ∧
      n.val.toUInt8 &&& 0x80 = 0 ∧ (n.val.toUInt8 &&& 0x7F).toNat = n.val := by
    decide
  exact hbytes ⟨n, h⟩

/-- Seven more bits of a number. -/
theorem shiftLeft_or_low {n : Nat} {b : UInt8} (hn : n < 2 ^ 32) (hb : b.toNat = n % 128) :
    (n / 128).toUInt32 <<< 7 ||| b.toUInt32 = n.toUInt32 := by
  have hhigh : (n / 128).toUInt32.toNat = n / 128 := Bytes.toNat_toUInt32 (by omega)
  have hsplit : (n / 128) <<< 7 ||| n % 128 = n := by
    rw [← Nat.shiftLeft_add_eq_or_of_lt (Nat.mod_lt n (by decide)), Nat.shiftLeft_eq]
    omega
  apply UInt32.toNat_inj.1
  rw [UInt32.toNat_or, UInt32.toNat_shiftLeft, UInt8.toNat_toUInt32, hhigh, hb,
    Bytes.toNat_toUInt32 hn]
  rw [Nat.mod_eq_of_lt (by rw [Nat.shiftLeft_eq]; simp; omega)]
  exact hsplit

theorem numberLead_of_ne {rest : Nat} (h : rest ≠ 0) :
    numberLead rest = numberLead (rest / 128) ++ [(rest % 128).toUInt8 ||| 0x80] := by
  rw [numberLead, if_neg h]

theorem length_numberLead_le {rest k : Nat} (h : rest < 128 ^ k) :
    (numberLead rest).length ≤ k := by
  induction k generalizing rest with
  | zero =>
    obtain rfl : rest = 0 := by simpa using h
    simp [numberLead]
  | succ k ih =>
    by_cases hrest : rest = 0
    · simp [numberLead, hrest]
    · have := ih (show rest / 128 < 128 ^ k by rw [Nat.pow_succ] at h; omega)
      rw [numberLead_of_ne hrest, List.length_append, List.length_singleton]
      omega

/-- Behind the lead of a number its upper bits have been read. -/
theorem readNumberFrom_numberLead {rest : Nat} (count : Nat) (hrest : rest < 2 ^ 32)
    (h : code.At p (numberLead rest).toArray) :
    readNumberFrom code ((numberLead rest).length + count) p 0
      = readNumberFrom code count (p + (numberLead rest).length) rest.toUInt32 := by
  induction rest using numberLead.induct generalizing count with
  | case1 => simp [numberLead]
  | case2 rest hne ih =>
    rw [numberLead_of_ne hne, ← List.append_toArray] at h
    rw [numberLead_of_ne hne, List.length_append, List.length_singleton, Nat.add_assoc,
      ih (1 + count) (by omega) h.left, Nat.add_comm 1 count, ← Nat.add_assoc]
    have hbyte := byteAt_eq_ok.2 h.right.singleton
    rw [List.size_toArray] at hbyte
    obtain ⟨hmark, hlow, -, -⟩ := marked_byte (Nat.mod_lt rest (show 0 < 128 by decide))
    rw [readNumberFrom, hbyte]
    simp only [bind, Except.bind, if_neg hmark, shiftLeft_or_low hrest hlow]

/-- A number is written with as many bytes as its bits need, at seven for each byte. -/
theorem length_encodeNumber_le_of_lt {value : UInt32} {n : Nat} (hn : 0 < n)
    (hvalue : value.toNat < 2 ^ (7 * n)) : (encodeNumber value).length ≤ n := by
  obtain ⟨k, rfl⟩ := Nat.exists_eq_add_one_of_ne_zero (Nat.ne_of_gt hn)
  rw [Nat.pow_mul, Nat.pow_succ] at hvalue
  have hlead : (numberLead (value.toNat / 128)).length ≤ k :=
    length_numberLead_le (Nat.div_lt_of_lt_mul (by rwa [Nat.mul_comm]))
  rw [encodeNumber, List.length_append, List.length_singleton]
  omega

theorem length_encodeNumber_le {value : UInt32} (hvalue : value.toNat < 2 ^ 28) :
    (encodeNumber value).length ≤ maxNumberLength :=
  length_encodeNumber_le_of_lt (by decide) hvalue

/-- A number of at most 28 bits is read back from its shortest bytes. -/
theorem readNumber_encodeNumber {value : UInt32} (hvalue : value.toNat < 2 ^ 28)
    (h : code.At p (encodeNumber value).toArray) :
    readNumber code p = .ok (value, p + (encodeNumber value).length) := by
  unfold encodeNumber at h ⊢
  rw [← List.append_toArray] at h
  have hlead : (numberLead (value.toNat / 128)).length ≤ 3 := length_numberLead_le (by omega)
  have hbyte := byteAt_eq_ok.2 h.right.singleton
  rw [List.size_toArray] at hbyte
  obtain ⟨-, -, hmark, hlow⟩ := marked_byte (Nat.mod_lt value.toNat (show 0 < 128 by decide))
  rw [readNumber, show maxNumberLength = (numberLead (value.toNat / 128)).length
      + (3 - (numberLead (value.toNat / 128)).length + 1) by unfold maxNumberLength; omega,
    readNumberFrom_numberLead _ (by omega) h.left, readNumberFrom, hbyte]
  simp only [bind, Except.bind, if_pos hmark, shiftLeft_or_low (n := value.toNat) (by omega) hlow]
  simp [pure, Except.pure, Nat.add_assoc]

/-! ## Reading what was moved -/

/-- The bytes from `p` up to `q` lie at `p'` in other bytes. -/
def Copied (code : Bytes) (p q : Nat) (code' : Bytes) (p' : Nat) : Prop :=
  ∀ i, p + i < q → code'[p' + i]? = code[p + i]?

theorem Copied.head {b : UInt8} (h : Copied code p q code' p') (hpq : p < q)
    (hb : byteAt code p = .ok b) : byteAt code' p' = .ok b := by
  rw [byteAt_eq_ok] at hb ⊢
  rw [← hb]
  exact h 0 hpq

theorem Copied.tail (h : Copied code p q code' p') : Copied code (p + 1) q code' (p' + 1) := by
  intro i hi
  rw [Nat.add_assoc, Nat.add_assoc, Nat.add_comm 1 i]
  exact h (i + 1) (by omega)

/-- One byte of a number, which ends it or not. -/
theorem readNumberFrom_succ {count : Nat} {value v : UInt32}
    (h : readNumberFrom code (count + 1) p value = .ok (v, q)) :
    ∃ b, byteAt code p = .ok b ∧
      ((b &&& 0x80 = 0 ∧ v = value <<< 7 ||| (b &&& 0x7F).toUInt32 ∧ q = p + 1) ∨
        (b &&& 0x80 ≠ 0 ∧ readNumberFrom code count (p + 1)
          (value <<< 7 ||| (b &&& 0x7F).toUInt32) = .ok (v, q))) := by
  obtain ⟨b, hb, h⟩ := bind_eq_ok.1 h
  refine ⟨b, hb, ?_⟩
  split at h
  · next hmark =>
    cases h
    exact .inl ⟨hmark, rfl, rfl⟩
  · next hmark => exact .inr ⟨hmark, h⟩

theorem readNumberFrom_le {count : Nat} {value v : UInt32}
    (h : readNumberFrom code count p value = .ok (v, q)) : p ≤ q := by
  induction count generalizing p value with
  | zero =>
    cases h
    exact Nat.le_refl _
  | succ count ih =>
    obtain ⟨b, -, ⟨-, -, rfl⟩ | ⟨-, hrest⟩⟩ := readNumberFrom_succ h
    · omega
    · have := ih hrest
      omega

/-- A number has at least one byte. -/
theorem readNumber_lt_end {v : UInt32} (h : readNumber code p = .ok (v, q)) : p < q := by
  obtain ⟨b, -, ⟨-, -, rfl⟩ | ⟨-, hrest⟩⟩ := readNumberFrom_succ h
  · omega
  · have := readNumberFrom_le hrest
    omega

theorem readNumberFrom_copied {count : Nat} {value v : UInt32} (hcopied : Copied code p q code' p')
    (h : readNumberFrom code count p value = .ok (v, q)) :
    readNumberFrom code' count p' value = .ok (v, p' + (q - p)) := by
  induction count generalizing p p' value with
  | zero =>
    cases h
    simp [readNumberFrom]
  | succ count ih =>
    obtain ⟨b, hb, ⟨hmark, rfl, rfl⟩ | ⟨hmark, hrest⟩⟩ := readNumberFrom_succ h
    · rw [readNumberFrom, hcopied.head (by omega) hb]
      simp [bind, Except.bind, pure, Except.pure, hmark]
    · have hlt := readNumberFrom_le hrest
      rw [readNumberFrom, hcopied.head (by omega) hb]
      simp only [bind, Except.bind, if_neg hmark, ih hcopied.tail hrest]
      rw [show p' + 1 + (q - (p + 1)) = p' + (q - p) by omega]

theorem readNumber_copied {v : UInt32} (hsame : Copied code p q code' p')
    (h : readNumber code p = .ok (v, q)) :
    readNumber code' p' = .ok (v, p' + (q - p)) :=
  readNumberFrom_copied hsame h

/-! ## The bits of a number -/

/-- Every byte adds seven bits. -/
theorem readNumberFrom_bits {count : Nat} {value v : UInt32} (taken : Nat)
    (hvalue : value.toNat < 2 ^ (7 * taken))
    (h : readNumberFrom code count p value = .ok (v, q)) :
    ∃ n ≤ count, q = p + n ∧ v.toNat < 2 ^ (7 * (taken + n)) := by
  induction count generalizing p value taken with
  | zero =>
    cases h
    exact ⟨0, Nat.le_refl 0, rfl, hvalue⟩
  | succ count ih =>
    have hnext : ∀ b : UInt8,
        (value <<< 7 ||| (b &&& 0x7F).toUInt32).toNat < 2 ^ (7 * (taken + 1)) := by
      intro b
      simp only [UInt32.toNat_or, UInt32.toNat_shiftLeft, UInt8.toNat_toUInt32, UInt8.toNat_and]
      refine Nat.or_lt_two_pow ?_ ?_
      · refine Nat.lt_of_le_of_lt (Nat.mod_le _ _) ?_
        rw [show 7 * (taken + 1) = 7 * taken + 7 by omega, Nat.pow_add]
        simp only [Nat.shiftLeft_eq]
        exact Nat.mul_lt_mul_of_pos_right hvalue (by decide)
      · have hand : b.toNat &&& 127 ≤ 127 := Nat.and_le_right
        have hpow : 2 ^ 7 ≤ 2 ^ (7 * (taken + 1)) := Nat.pow_le_pow_right (by omega) (by omega)
        exact Nat.lt_of_le_of_lt hand (Nat.lt_of_lt_of_le (by decide) hpow)
    obtain ⟨b, -, ⟨-, rfl, rfl⟩ | ⟨-, hrest⟩⟩ := readNumberFrom_succ h
    · exact ⟨1, by omega, rfl, hnext b⟩
    · obtain ⟨n, hn, rfl, hv⟩ := ih (taken + 1) (hnext b) hrest
      refine ⟨n + 1, by omega, by omega, ?_⟩
      rwa [show taken + (n + 1) = taken + 1 + n by omega]

theorem readNumber_bits {v : UInt32} (h : readNumber code p = .ok (v, q)) :
    ∃ n ≤ maxNumberLength, q = p + n ∧ v.toNat < 2 ^ (7 * n) := by
  obtain ⟨n, hn, hq, hv⟩ := readNumberFrom_bits 0 (by simp) h
  exact ⟨n, hn, hq, by rwa [Nat.zero_add] at hv⟩

theorem readNumber_lt {v : UInt32}
    (h : readNumber code p = .ok (v, q)) : v.toNat < 2 ^ 28 := by
  obtain ⟨n, hn, -, hv⟩ := readNumber_bits h
  exact Nat.lt_of_lt_of_le hv (Nat.pow_le_pow_right (by decide) (Nat.mul_le_mul_left 7 hn))

/-! ## Three bytes -/

theorem readU24_eq_ok {v : UInt32} (h : readU24 code p = .ok (v, q)) :
    ∃ low middle high, byteAt code p = .ok low ∧ byteAt code (p + 1) = .ok middle ∧
      byteAt code (p + 2) = .ok high ∧ q = p + 3 ∧
      v = low.toUInt32 ||| middle.toUInt32 <<< 8 ||| high.toUInt32 <<< 16 := by
  obtain ⟨low, h0, h⟩ := bind_eq_ok.1 h
  obtain ⟨middle, h1, h⟩ := bind_eq_ok.1 h
  obtain ⟨high, h2, h⟩ := bind_eq_ok.1 h
  cases h
  exact ⟨low, middle, high, h0, h1, h2, rfl, rfl⟩

theorem readU24_lt {v : UInt32} (h : readU24 code p = .ok (v, q)) :
    v.toNat < 2 ^ 24 := by
  obtain ⟨low, middle, high, -, -, -, -, rfl⟩ := readU24_eq_ok h
  have hl := low.toNat_lt
  have hm := middle.toNat_lt
  have hh := high.toNat_lt
  simp only [UInt32.toNat_or, UInt32.toNat_shiftLeft, UInt8.toNat_toUInt32]
  refine Nat.or_lt_two_pow (Nat.or_lt_two_pow (by omega) ?_) ?_
  · simp [Nat.shiftLeft_eq]; omega
  · simp [Nat.shiftLeft_eq]; omega

theorem readU24_of_le (h : p + 3 ≤ code.size) : ∃ v, readU24 code p = .ok (v, p + 3) := by
  unfold readU24
  rw [byteAt_of_lt (by omega), byteAt_of_lt (by omega), byteAt_of_lt (by omega)]
  exact ⟨_, rfl⟩

theorem readU24_copied {v : UInt32} (hcopied : Copied code p (p + 3) code' p')
    (h : readU24 code p = .ok (v, q)) : readU24 code' p' = .ok (v, p' + 3) := by
  obtain ⟨low, middle, high, h0, h1, h2, -, rfl⟩ := readU24_eq_ok h
  have hlow := hcopied.head (by omega) h0
  have hmiddle := hcopied.tail.head (by omega) h1
  have hhigh := hcopied.tail.tail.head (by omega) h2
  rw [readU24, hlow, hmiddle, hhigh]
  rfl

end Bytecode

end SoundArchive
