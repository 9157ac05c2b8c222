import SoundArchive.Proofs.Wave.Adpcm
import SoundArchive.Proofs.Wave.Rereading

/-!
# The loop of a wave ends with its last sample

A loop is stored in words and played in samples, of which a word holds two, four or eight. The first
word of a compressed wave holds none. A loop that begins behind it ends where the samples end, and
one that takes it in ends a word of samples too late.
-/

namespace SoundArchive

namespace Wave

variable {bytes : Bytes} {offset : Nat} {w : Wave}

/-! ## Numbers of samples -/

theorem size_decodeSamples (format : WaveFormat) (data : Bytes) :
    (decodeSamples format data).size =
      match format with
      | .pcm8 => data.size
      | .pcm16 => data.size / 2
      | .adpcm => 2 * (data.size - Adpcm.headerLength) := by
  cases format with
  | pcm8 => simp [decodeSamples]
  | pcm16 => simp [decodeSamples, halfwords]
  | adpcm => exact Adpcm.size_decode data

/-! ## The loop in samples -/

/-- The loop of a compressed wave begins with the header, and there is one. -/
def HeaderInLoop (w : Wave) : Prop := w.format = .adpcm ∧ w.loopOffset = 0 ∧ w.loopWords ≠ 0

instance (w : Wave) : Decidable w.HeaderInLoop :=
  inferInstanceAs (Decidable (w.format = .adpcm ∧ w.loopOffset = 0 ∧ w.loopWords ≠ 0))

theorem toNat_loopStart (w : Wave) : w.loopStart.toNat =
    match w.format with
    | .pcm8 => w.loopOffset.toNat * 4
    | .pcm16 => w.loopOffset.toNat * 2
    | .adpcm => (w.loopOffset.toNat - 1) * 8 := by
  have hoffset := w.loopOffset.toNat_lt
  unfold loopStart
  cases w.format with
  | pcm8 | pcm16 =>
    simp only [WaveFormat.samplesPerWord, UInt32.toNat_mul, UInt16.toNat_toUInt32,
      UInt32.reduceToNat]
    omega
  | adpcm =>
    by_cases hzero : w.loopOffset = 0
    · simp [hzero]
    · have hpos : w.loopOffset.toNat ≠ 0 := fun h => hzero (UInt16.toNat_inj.1 h)
      have hone : (1 : UInt32) ≤ w.loopOffset.toUInt32 := by
        rw [UInt32.le_iff_toNat_le, UInt16.toNat_toUInt32]
        exact Nat.one_le_iff_ne_zero.2 hpos
      simp only [hzero, if_false, UInt32.toNat_mul, UInt32.toNat_sub_of_le _ _ hone,
        UInt16.toNat_toUInt32, UInt32.reduceToNat]
      omega

theorem toNat_loopLength (hwords : w.loopWords.toNat < 2 ^ 26) : w.loopLength.toNat =
    w.loopWords.toNat * w.format.samplesPerWord.toNat := by
  unfold loopLength
  cases w.format <;> simp [WaveFormat.samplesPerWord] <;> omega

/-- The loop of a wave ends with the last of its samples, unless the wave is compressed and its
header belongs to the loop. Then the loop ends as many samples later as a word holds. -/
theorem loopEnd_eq (hdecode : decode bytes offset = .ok w) (hsize : w.data.size < 2 ^ 28) :
    w.loopStart.toNat + w.loopLength.toNat
        = w.samples.size + (if w.HeaderInLoop then 8 else 0) ∧
      (w.loopStart.toNat + w.loopLength.toNat = w.samples.size ↔ ¬ w.HeaderInLoop) := by
  have hdata : w.data.size = (w.loopOffset.toNat + w.loopWords.toNat) * 4 :=
    isDecoded_of_decode hdecode
  have hlength := toNat_loopLength (w := w) (by omega)
  have hstart := toNat_loopStart w
  have hsamples := size_decodeSamples w.format w.data
  rw [← w.samples_eq, hdata] at hsamples
  have hend : w.loopStart.toNat + w.loopLength.toNat
      = w.samples.size + if w.HeaderInLoop then 8 else 0 := by
    rw [hstart, hlength, hsamples]
    cases hformat : w.format with
    | pcm8 | pcm16 =>
      have hout : ¬ w.HeaderInLoop := fun h => by simpa [hformat] using h.1
      rw [if_neg hout]
      simp only [WaveFormat.samplesPerWord, UInt32.reduceToNat]
      omega
    | adpcm =>
      have hin : w.HeaderInLoop ↔ w.loopOffset.toNat = 0 ∧ w.loopWords.toNat ≠ 0 := by
        simp [HeaderInLoop, hformat, ← UInt16.toNat_inj, ← UInt32.toNat_inj]
      simp only [hin, WaveFormat.samplesPerWord, Adpcm.headerLength, UInt32.reduceToNat]
      split <;> omega
  refine ⟨hend, ?_⟩
  rw [hend]
  by_cases hin : w.HeaderInLoop <;> simp [hin]

/-- A compressed wave whose loop begins right behind the header. -/
theorem loopEnd_of_compressed :
    let bytes : Bytes := #[2, 1, 0, 0, 0, 0, 1, 0, 1, 0, 0, 0, 0, 0, 0, 0, 0x17, 0x80, 0xFF, 0x01]
    let w : Wave :=
      { format := .adpcm, looped := true, sampleRate := 0, timer := 0, loopOffset := 1
        loopWords := 1, data := #[0, 0, 0, 0, 0x17, 0x80, 0xFF, 0x01] }
    decode bytes 0 = .ok w ∧ w.data.size < 2 ^ 28 ∧ ¬ w.HeaderInLoop ∧
      w.loopStart.toNat + w.loopLength.toNat = w.samples.size := by
  intro bytes w
  have hdecode : decode bytes 0 = .ok w := by decide +kernel
  have hsize : w.data.size < 2 ^ 28 := by decide
  have hout : ¬ w.HeaderInLoop := by decide
  exact ⟨hdecode, hsize, hout, (loopEnd_eq hdecode hsize).2.2 hout⟩

/-- A compressed wave whose loop begins with the header. -/
theorem not_loopEnd_eq_samples :
    ¬ ∀ (bytes : Bytes) (offset : Nat) (w : Wave), decode bytes offset = .ok w →
      w.data.size < 2 ^ 28 → w.loopStart.toNat + w.loopLength.toNat = w.samples.size := by
  intro h
  let bytes : Bytes := #[2, 1, 0, 0, 0, 0, 0, 0, 2, 0, 0, 0, 0, 0, 0, 0, 0, 0, 0, 0]
  let w : Wave :=
    { format := .adpcm, looped := true, sampleRate := 0, timer := 0, loopOffset := 0
      loopWords := 2, data := #[0, 0, 0, 0, 0, 0, 0, 0] }
  have hdecode : decode bytes 0 = .ok w := by decide +kernel
  have hend := h bytes 0 w hdecode (by decide)
  revert hend
  decide +kernel

end Wave

end SoundArchive
