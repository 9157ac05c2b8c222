import SoundArchive.Playback.Channel.Update
import SoundArchive.Playback.Remainder

/-!
# Samples of a channel

A channel gives one pair of samples, left and right, for every tick, and advances in its source.
-/

namespace SoundArchive.Channel

/-! ## Noise -/

/-- One step of the shift register: a set bit that leaves it comes back in two others. -/
def shiftNoise (r : Registers) : Registers :=
  if r.noise &&& 1 ≠ 0 then
    { r with noise := (r.noise >>> 1) ^^^ 0x6000, noiseSample := -Curve.fullSample }
  else { r with noise := r.noise >>> 1, noiseSample := Curve.fullSample }

/-- Runs the noise up to `position`, if it is not beyond that already. -/
def runNoise (r : Registers) (position : UInt32) : Registers :=
  let steps := position.toNat - r.noisePosition.toNat
  { steps.repeat shiftNoise r with noisePosition := max r.noisePosition position }

/-! ## One sample -/

/-- The sample at the position of the registers. While the hardware starts it is 0. -/
def sample (r : Registers) : Registers × Int :=
  if r.position < 0 then (r, 0)
  else
    let position := r.position.toUInt32
    match r.source with
    | none => (r, 0)
    | some (.pcm wave) => (r, (wave.samples.getD position.toNat 0).toInt)
    | some (.square duty) => (r, Curve.squareWave duty position)
    | some .noise =>
      let r := runNoise r position
      (r, r.noiseSample)

/-- Goes on to the next position. At the end of a wave playback goes back to the loop, or the
channel falls silent. -/
def advance (c : Channel) : Channel :=
  let position := c.registers.position + c.registers.increase
  let moved := fun (p : Float) => { c with registers := { c.registers with position := p } }
  match c.registers.source with
  | some (.pcm wave) =>
    let start := wave.loopStart.toFloat
    let length := wave.loopLength.toFloat
    if c.registers.position ≥ 0 ∧ position ≥ start + length then
      if wave.looped ∧ length > 0 then
        moved (start + Remainder.remainder (position - start) length)
      else c.kill
    else moved position
  | _ => moved position

/-- The next samples, left and right. -/
def mix (c : Channel) : Channel × Int × Int :=
  let (registers, value) := sample c.registers
  let c := { c with registers }.advance
  let scaled := Curve.scale7 value c.registers.volume
    >>> Curve.dividerShift c.registers.divider
  (c, Curve.scale7 scaled (127 - c.registers.pan), Curve.scale7 scaled c.registers.pan)

end SoundArchive.Channel
