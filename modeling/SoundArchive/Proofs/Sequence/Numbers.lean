import SoundArchive.Proofs.Sequence.Visits

/-!
# Numbers have one shortest form

The writer takes seven bits off a number until none are left, and the reader adds seven bits for
each byte, but for four bytes at most. So they agree on the numbers of 28 bits, and nothing that is
read has fewer bytes than what is written.
-/

namespace SoundArchive.Bytecode

/-- A number is written with no more bytes than it was read from. -/
theorem length_encodeNumber_le_of_read {code : Bytes} {p n : Nat} {value : UInt32}
    (h : readNumber code p = .ok (value, p + n)) : (encodeNumber value).length ≤ n := by
  have hn : 0 < n := by
    have := readNumber_lt_end h
    omega
  obtain ⟨m, -, hm, hbits⟩ := readNumber_bits h
  obtain rfl : n = m := Nat.add_left_cancel hm
  exact length_encodeNumber_le_of_lt hn hbits

/-- The numbers of at most 28 bits are read back, and end where their bytes end, whatever lies in
front of these and behind. A number that is read anywhere has at most 28 bits, and at most seven for
each of its bytes, and is written with no more bytes than these. -/
theorem readNumber_encodeNumber_shortest :
    (∀ (front rest : Bytes) (value : UInt32),
      readNumber (front ++ (encodeNumber value).toArray ++ rest) front.size
          = .ok (value, front.size + (encodeNumber value).length) ↔ value.toNat < 2 ^ 28) ∧
    ∀ (code : Bytes) (p q : Nat) (value : UInt32), readNumber code p = .ok (value, q) →
      ∃ n, 0 < n ∧ q = p + n ∧ q ≤ code.size ∧ value.toNat < 2 ^ 28 ∧
        value.toNat < 2 ^ (7 * n) ∧ (encodeNumber value).length ≤ n := by
  refine ⟨fun front rest value => ⟨readNumber_lt, fun hvalue => ?_⟩, fun code p q value h => ?_⟩
  · exact readNumber_encodeNumber hvalue ⟨front, rest, rfl, rfl⟩
  · obtain ⟨n, -, rfl, hbits⟩ := readNumber_bits h
    obtain ⟨hlt, hle⟩ := readNumber_bounds h
    exact ⟨n, by omega, rfl, hle, readNumber_lt h, hbits, length_encodeNumber_le_of_read h⟩

/-- The first number of 22 bits takes all four bytes. The number 128 is also read from three bytes,
of which the first adds nothing. -/
theorem readNumber_of_longer_form :
    (0x200000 : UInt32).toNat < 2 ^ 28 ∧
      readNumber (#[0x80] ++ (encodeNumber 0x200000).toArray ++ #[0x85]) 1 = .ok (0x200000, 5) ∧
      readNumber #[0xC0, 0x80, 0x81, 0x00] 1 = .ok (0x80, 4) ∧
      (encodeNumber 0x80).length ≤ 3 := by
  have hbits : (0x200000 : UInt32).toNat < 2 ^ 28 := by decide
  have hback := (readNumber_encodeNumber_shortest.1 #[0x80] #[0x85] 0x200000).2 hbits
  have hlength : (encodeNumber 0x200000).length = 4 := by decide +kernel
  rw [hlength] at hback
  have hlonger : readNumber #[0xC0, 0x80, 0x81, 0x00] 1 = .ok (0x80, 4) := by decide +kernel
  obtain ⟨n, -, hend, -, -, -, hshort⟩ := readNumber_encodeNumber_shortest.2 _ _ _ _ hlonger
  obtain rfl : n = 3 := by omega
  exact ⟨hbits, hback, hlonger, hshort⟩

end SoundArchive.Bytecode
