import SoundArchive.Playback.CurveTables

/-!
# Conversion curves

How the bytes of instruments and commands become envelope steps, levels, timers and samples.
Levels are volumes in tenths of a decibel, where 0 is full volume.
-/

namespace SoundArchive.Curve

/-- The quietest level a channel can reach. -/
def silence : Int := -723

/-- Envelope amplitudes are levels with seven fractional bits. -/
def amplitudeScale : Int := 128

def silentAmplitude : Int32 := .ofInt (silence * amplitudeScale)

/-! ## Envelopes -/

/-- The fastest attacks, from the last one down. -/
def fastAttacks : Array UInt8 := #[0x00, 0x01, 0x05, 0x0E, 0x1A, 0x26, 0x33, 0x3F, 0x49, 0x54,
  0x5C, 0x64, 0x6D, 0x74, 0x7B, 0x7F, 0x84, 0x89, 0x8F]

/-- The factor, over 256, that an attack applies to the amplitude again and again. -/
def attackFactor (attack : UInt8) : UInt8 :=
  let attack := min attack 0x7F
  if attack ≥ 0x6D then fastAttacks.getD (0x7F - attack).toNat 0 else 0xFF - attack

/-- What a decay or a release takes off the amplitude each time. -/
def fallStep (fall : UInt8) : UInt16 :=
  let fall := min fall 0x7F
  if fall = 0x7F then 0xFFFF
  else if fall = 0x7E then 0x3C00
  else if fall < 0x32 then fall.toUInt16 * 2 + 1
  else 0x1E00 / (0x7E - fall.toUInt16)

/-! ## Volumes -/

/-- The level of a 7-bit volume. Higher ones are full volume. -/
def level (volume : UInt8) : Int :=
  if volume ≥ 0x80 then 0 else levels.getD volume.toNat 0

/-- Which power of two the hardware divides by, for a level at this height above silence. Quiet
levels keep their resolution by it. -/
def divider (height : Int) : UInt8 :=
  let level := height + silence
  if level < -240 then 3 else if level < -120 then 2 else if level < -60 then 1 else 0

/-- The bits by which a divider shifts samples to the right. -/
def dividerShift (divider : UInt8) : Nat := if divider = 3 then 4 else divider.toNat

/-- The volume and the divider that the hardware gets, for a level at this height above
silence. -/
def hardwareVolume (height : Int) : UInt8 × UInt8 :=
  let height := max 0 (min (-silence) height)
  ((dividedVolumes.getD height.toNat 0).toUInt8, divider height)

/-- The 7-bit factor of a level. -/
def gain (level : Int) : UInt8 :=
  (gains.getD (max silence (min 0 level) - silence).toNat 0).toUInt8

/-- Applies a 7-bit factor, of which 127 changes nothing. -/
def scale7 (value : Int) (factor : UInt8) : Int :=
  if factor = 127 then value else value * factor.toNat / 128

/-! ## Pitch -/

def stepsPerSemitone : Int := 64

def stepsPerOctave : Int := 12 * stepsPerSemitone

def minTimer : Nat := 0x10

def maxTimer : Nat := 0xFFFF

/-- A timer for a pitch that is higher by `pitch` steps. A higher pitch has a shorter timer. -/
def adjustTimer (timer : UInt16) (pitch : Int) : UInt16 :=
  let octaves := (-pitch) / stepsPerOctave
  let step := ((-pitch) % stepsPerOctave).toNat
  let scaled := timer.toNat * (pitchRatios.getD step 0 + 0x10000)
  let shift := octaves - 16
  let adjusted :=
    if shift ≤ 0 then scaled >>> (-shift).toNat
    else if shift < 32 then scaled <<< shift.toNat
    else 0
  (max minTimer (min maxTimer adjusted)).toUInt16

/-! ## Waves -/

def quarter : Nat := 32

/-- A sine wave of period 128 and amplitude 127. -/
def sine (phase : UInt8) : Int :=
  let phase := phase.toNat % (4 * quarter)
  let height := fun (i : Nat) => Int.ofNat (quarterSine.getD i 0)
  match phase / quarter with
  | 0 => height phase
  | 1 => height (2 * quarter - phase)
  | 2 => -height (phase - 2 * quarter)
  | _ => -height (4 * quarter - phase)

/-- The loudest sample of the waves that the hardware makes itself. -/
def fullSample : Int := 0x7FFF

/-- A step of a square wave, which is high for one more than `duty` of every eight steps. The
last duty stays low. -/
def squareWave (duty : UInt8) (step : UInt32) : Int :=
  let duty := duty.toNat % 8
  if duty ≠ 7 ∧ step.toNat % 8 ≥ 7 - duty then fullSample else -fullSample

end SoundArchive.Curve
