import Mathlib.Algebra.Group.Int.Defs
import SoundArchive.Playback.Channel.Update

/-!
# Amplitudes

An amplitude has 32 bits. Attacks and decays stay far from both ends of it. A release may come to
the lower end, and goes on at the upper one.
-/

namespace SoundArchive

/-! ## Curves -/

namespace Curve

theorem fallStep_ne_zero (fall : UInt8) : fallStep fall ≠ 0 := by
  have hall : ∀ n : Fin 256, fallStep (.ofNat n) ≠ 0 := by decide +kernel
  have hfall := hall ⟨fall.toNat, fall.toNat_lt⟩
  rwa [UInt8.ofNat_toNat] at hfall

theorem level_bounds (volume : UInt8) : -32768 ≤ level volume ∧ level volume ≤ 0 := by
  have hall : ∀ l ∈ levels.toList, -32768 ≤ l ∧ l ≤ 0 := by decide +kernel
  unfold level
  split
  · decide
  · rw [Array.getD_eq_getD_getElem?]
    cases hl : levels[volume.toNat]? with
    | none => decide
    | some l => exact hall l (Array.mem_def.1 (Array.mem_of_getElem? hl))

end Curve

namespace Channel

variable {a : Int32}

/-! ## Falling -/

theorem toInt_ofNat_byte (factor : UInt8) : (Int32.ofNat factor.toNat).toInt = factor.toNat :=
  Int32.toInt_ofNat_of_lt (by have := factor.toNat_lt; omega)

theorem toInt_ofNat_word (fall : UInt16) : (Int32.ofNat fall.toNat).toInt = fall.toNat :=
  Int32.toInt_ofNat_of_lt (by have := fall.toNat_lt; omega)

theorem toInt_fallen (a : Int32) (fall : UInt16) (h : -2 ^ 31 ≤ a.toInt - fall.toNat) :
    (fallen a fall).toInt = a.toInt - fall.toNat := by
  have hlt := a.toInt_lt
  rw [fallen, Int32.toInt_sub, toInt_ofNat_word]
  exact Int.bmod_eq_of_le (by omega) (by omega)

theorem falls_nonneg (n : Nat) (fall : UInt16) : 0 ≤ (n * fall.toNat : Int) :=
  Int.mul_nonneg (Int.natCast_nonneg n) (Int.natCast_nonneg _)

theorem falls_succ (n : Nat) (fall : UInt16) :
    ((n + 1 : Nat) * fall.toNat : Int) = n * fall.toNat + fall.toNat := by
  rw [Int.natCast_add, Int.add_mul, Int.natCast_one, Int.one_mul]

/-! ## Attacks and decays -/

/-- Below full volume the amplitude rises every time, and not beyond full volume. -/
theorem attenuated_bounds (hlow : -92544 ≤ a.toInt) (hneg : a.toInt < 0) (factor : UInt8) :
    a.toInt < (attenuated a factor).toInt ∧ (attenuated a factor).toInt ≤ 0 := by
  have hfactor : (factor.toNat : Int) ≤ 255 := by
    have := factor.toNat_lt
    omega
  have hle : -a.toInt * factor.toNat ≤ -a.toInt * 255 :=
    Int.mul_le_mul_of_nonneg_left hfactor (by omega)
  have hnonneg : 0 ≤ -a.toInt * factor.toNat := Int.mul_nonneg (by omega) (by omega)
  have hproduct : (a * .ofNat factor.toNat).toInt = -(-a.toInt * factor.toNat) := by
    rw [Int32.toInt_mul, toInt_ofNat_byte, Int.neg_mul, Int.neg_neg]
    rw [Int.neg_mul] at hle hnonneg
    exact Int.bmod_eq_of_le (by omega) (by omega)
  have hquotient : (attenuated a factor).toInt = -(-a.toInt * factor.toNat / 256) := by
    have hlarge : a * .ofNat factor.toNat ≠ Int32.minValue := by
      intro hmin
      have := hproduct.symm.trans (congrArg Int32.toInt hmin)
      rw [show Int32.minValue.toInt = -2147483648 from rfl] at this
      omega
    rw [attenuated, Int32.toInt_div_of_ne_left _ _ hlarge, hproduct,
      ← Int.tdiv_eq_ediv_of_nonneg hnonneg, ← Int.neg_tdiv]
    rfl
  rw [hquotient]
  omega

theorem sustainAmplitude_bounds (c : Channel) :
    -4194304 ≤ c.sustainAmplitude.toInt ∧ c.sustainAmplitude.toInt ≤ 0 := by
  have hlevel := Curve.level_bounds c.sustain
  have hint : c.sustainAmplitude.toInt = Curve.level c.sustain * 128 :=
    Int32.toInt_ofInt_of_le (by unfold Curve.amplitudeScale; omega)
      (by unfold Curve.amplitudeScale; omega)
  rw [hint]
  omega

end Channel

end SoundArchive
