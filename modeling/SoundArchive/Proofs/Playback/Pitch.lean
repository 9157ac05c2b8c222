import Mathlib.Data.List.Chain
import Mathlib.Order.Monotone.Basic
import SoundArchive.Playback.Curve

/-!
# A higher pitch has no longer timer

The timer of a pitch is taken from an octave in the table and moved by whole octaves, so it can only
go wrong where one octave meets the next, and where it is moved further than there are bits.
-/

namespace SoundArchive.Curve

/-! ## Octaves -/

/-- Moved to the left by this many bits, or to the right by a negative count. -/
def shifted (n : Nat) (shift : Int) : Nat :=
  if shift ≤ 0 then n >>> (-shift).toNat else n <<< shift.toNat

theorem shifted_mono {m n : Nat} (h : m ≤ n) (shift : Int) : shifted m shift ≤ shifted n shift := by
  unfold shifted
  split
  · rw [Nat.shiftRight_eq_div_pow, Nat.shiftRight_eq_div_pow]
    exact Nat.div_le_div_right h
  · rw [Nat.shiftLeft_eq, Nat.shiftLeft_eq]
    exact Nat.mul_le_mul_right _ h

/-- One bit more is one octave more. -/
theorem shifted_two_mul (n : Nat) (shift : Int) :
    shifted (2 * n) shift = shifted n (shift + 1) := by
  unfold shifted
  rcases lt_trichotomy shift 0 with hneg | rfl | hpos
  · obtain ⟨k, hk⟩ : ∃ k : Nat, -shift = k + 1 := ⟨(-shift - 1).toNat, by omega⟩
    have hright : (-shift).toNat = k + 1 := by omega
    have hleft : (-(shift + 1)).toNat = k := by omega
    rw [if_pos (by omega), if_pos (by omega), hright, hleft, Nat.shiftRight_eq_div_pow,
      Nat.shiftRight_eq_div_pow, Nat.pow_succ', Nat.mul_div_mul_left _ _ (by decide)]
  · simp [Nat.shiftLeft_eq, Nat.mul_comm]
  · have hleft : (shift + 1).toNat = shift.toNat + 1 := by omega
    rw [if_neg (by omega), if_neg (by omega), hleft, Nat.shiftLeft_eq, Nat.shiftLeft_eq,
      Nat.pow_succ', Nat.mul_left_comm, Nat.mul_assoc]

/-! ## The table -/

theorem getD_le_succ {table : Array Nat} (h : table.toList.IsChain (· ≤ ·)) {k : Nat}
    (hk : k + 1 < table.size) : table.getD k 0 ≤ table.getD (k + 1) 0 := by
  have hle := List.isChain_iff_getElem.1 h k hk
  simpa [Array.getD, hk, Nat.lt_of_succ_lt hk] using hle

theorem pitchRatios_le_succ {k : Nat} (h : k < 767) :
    pitchRatios.getD k 0 ≤ pitchRatios.getD (k + 1) 0 := by
  have hsorted : pitchRatios.toList.IsChain (· ≤ ·) := by decide +kernel
  have hsize : pitchRatios.size = 768 := by decide +kernel
  exact getD_le_succ hsorted (by omega)

/-- The last step of an octave is not beyond the first one of the next. -/
theorem pitchRatios_last :
    pitchRatios.getD 767 0 + 0x10000 ≤ 2 * (pitchRatios.getD 0 0 + 0x10000) := by
  decide +kernel

/-- The timer that is lower by so many steps, before it is brought between its bounds. -/
def lowered (timer : Nat) (steps : Int) : Nat :=
  shifted (timer * (pitchRatios.getD (steps % stepsPerOctave).toNat 0 + 0x10000))
    (steps / stepsPerOctave - 16)

theorem lowered_le_succ (timer : Nat) (steps : Int) :
    lowered timer steps ≤ lowered timer (steps + 1) := by
  have hoctave : stepsPerOctave = 768 := rfl
  unfold lowered
  rw [hoctave]
  by_cases hlast : (steps % 768).toNat = 767
  · have hstep : ((steps + 1) % 768).toNat = 0 := by omega
    have hnext : (steps + 1) / 768 - 16 = steps / 768 - 16 + 1 := by omega
    rw [hlast, hstep, hnext, ← shifted_two_mul, Nat.mul_left_comm]
    exact shifted_mono (Nat.mul_le_mul_left timer pitchRatios_last) _
  · have hstep : ((steps + 1) % 768).toNat = (steps % 768).toNat + 1 := by omega
    have hsame : (steps + 1) / 768 = steps / 768 := by omega
    have hratio := pitchRatios_le_succ (show (steps % 768).toNat < 767 by omega)
    rw [hstep, hsame]
    exact shifted_mono (Nat.mul_le_mul_left timer (Nat.add_le_add_right hratio _)) _

theorem lowered_mono (timer : Nat) {a b : Int} (h : a ≤ b) : lowered timer a ≤ lowered timer b :=
  monotone_int_of_le_succ (lowered_le_succ timer) h

/-! ## Timers -/

/-- From here down the timer would have to be moved by 32 bits and more, and is not any more. -/
def cutOff : Int := -(48 * stepsPerOctave)

theorem toNat_adjustTimer (timer : UInt16) (pitch : Int) :
    (adjustTimer timer pitch).toNat = max minTimer (min maxTimer
      (if cutOff < pitch then lowered timer.toNat (-pitch) else 0)) := by
  have hoctave : stepsPerOctave = 768 := rfl
  have hfits (n : Nat) : (max minTimer (min maxTimer n)).toUInt16.toNat
      = max minTimer (min maxTimer n) := by
    unfold minTimer maxTimer
    rw [Nat.toUInt16_eq, UInt16.toNat_ofNat', Nat.mod_eq_of_lt (by omega)]
  unfold adjustTimer
  rw [hfits]
  congr 2
  unfold cutOff lowered shifted
  rw [hoctave]
  by_cases hshift : -pitch / 768 - 16 ≤ 0
  · rw [if_pos hshift, if_pos (by omega), if_pos hshift]
  · rw [if_neg hshift, if_neg hshift]
    by_cases hcut : -(48 * 768) < pitch
    · rw [if_pos hcut, if_pos (by omega)]
    · rw [if_neg hcut, if_neg (by omega)]

theorem toNat_adjustTimer_of_le {pitch : Int} (timer : UInt16) (h : pitch ≤ cutOff) :
    (adjustTimer timer pitch).toNat = minTimer := by
  rw [toNat_adjustTimer, if_neg (by omega)]
  rfl

/-- Every timer is between its bounds, and that of a higher pitch is no longer than that of a lower
one unless the lower one is beyond the cut-off, where it is the shortest of all. -/
theorem adjustTimer_le_iff (timer : UInt16) :
    (∀ pitch, minTimer ≤ (adjustTimer timer pitch).toNat ∧
      (adjustTimer timer pitch).toNat ≤ maxTimer) ∧
    ∀ p q, p < q → (adjustTimer timer q ≤ adjustTimer timer p ↔
      cutOff < p ∨ (adjustTimer timer q).toNat = minTimer) := by
  have hbounds (pitch : Int) : minTimer ≤ (adjustTimer timer pitch).toNat ∧
      (adjustTimer timer pitch).toNat ≤ maxTimer := by
    rw [toNat_adjustTimer]
    unfold minTimer maxTimer
    omega
  refine ⟨hbounds, fun p q hpq => ?_⟩
  rw [UInt16.le_iff_toNat_le]
  have hmin := (hbounds q).1
  by_cases hp : cutOff < p
  · simp only [hp, true_or, iff_true]
    have hle : lowered timer.toNat (-q) ≤ lowered timer.toNat (-p) :=
      lowered_mono timer.toNat (by omega)
    rw [toNat_adjustTimer, toNat_adjustTimer, if_pos hp, if_pos (by omega)]
    omega
  · have hp' := toNat_adjustTimer_of_le timer (Int.not_lt.1 hp)
    simp only [hp, false_or, hp']
    omega

/-- From the last step of an octave to the first one of the next. -/
theorem adjustTimer_le_of_octave :
    (-768 : Int) < -767 ∧ cutOff < -768 ∧
      adjustTimer 0x1000 (-767) ≤ adjustTimer 0x1000 (-768) := by
  have hpitch : (-768 : Int) < -767 := by decide
  have hcut : cutOff < -768 := by decide
  exact ⟨hpitch, hcut, ((adjustTimer_le_iff 0x1000).2 _ _ hpitch).2 (.inl hcut)⟩

/-- The step up from the cut-off goes from the shortest timer to the longest. -/
theorem not_adjustTimer_antitone :
    ¬ ∀ (timer : UInt16) (p q : Int), -0x80000000 < p → p < q → q < 0x80000000 →
      adjustTimer timer q ≤ adjustTimer timer p := by
  intro h
  have hle := h 0x1000 (-36864) (-36863) (by decide) (by decide) (by decide)
  revert hle
  decide +kernel

end SoundArchive.Curve
