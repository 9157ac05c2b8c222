import SoundArchive.Playback.Channel.Basic

/-!
# Updates of a channel

With every tick of the driver a channel goes on with its envelope and its modulation, and
refreshes those of its registers that changed.
-/

namespace SoundArchive

/-- Processor cycles of a tick of the driver. -/
def tickCycles : Nat := 64 * 2728

namespace Channel

/-! ## The envelope -/

/-- The level that an amplitude stands for. -/
def levelOf (amplitude : Int32) : Int := amplitude.toInt / Curve.amplitudeScale

def attenuated (amplitude : Int32) (factor : UInt8) : Int32 :=
  amplitude * .ofNat factor.toNat / 256

/-- What a decay or a release leaves of an amplitude. It wraps around below the lowest one there
is. -/
def fallen (amplitude : Int32) (fall : UInt16) : Int32 := amplitude - .ofNat fall.toNat

/-- The first amplitude on another level than `level` that comes of attenuating again and again,
or none if the amplitude does not move any more. -/
def climb (factor : UInt8) (level : Int) (amplitude : Int32) : Option Int32 :=
  let next := attenuated amplitude factor
  if levelOf next ≠ level then some next
  else if next.toInt.natAbs < amplitude.toInt.natAbs then climb factor level next
  else none
termination_by amplitude.toInt.natAbs

/-- An attack goes on until the level changes, and is over at full volume. -/
def attackStep (c : Channel) : Channel :=
  let amplitude := (climb c.attack (levelOf c.amplitude) c.amplitude).getD c.amplitude
  { c with amplitude, stage := if amplitude = 0 then .decay else c.stage }

/-- The amplitude on which a note is sustained. -/
def sustainAmplitude (c : Channel) : Int32 :=
  .ofInt (Curve.level c.sustain * Curve.amplitudeScale)

def stepEnvelope (c : Channel) : Channel :=
  match c.stage with
  | .silent | .sustain => c
  | .start =>
    attackStep { c with
      registers := { c.registers with source := c.source }
      amplitude := Curve.silentAmplitude
      stage := .attack }
  | .attack => c.attackStep
  | .decay =>
    let amplitude := fallen c.amplitude c.decay
    if amplitude ≤ c.sustainAmplitude then
      { c with amplitude := c.sustainAmplitude, stage := .sustain }
    else { c with amplitude }
  | .release =>
    let c := { c with amplitude := fallen c.amplitude c.release }
    if c.amplitude ≤ Curve.silentAmplitude then c.kill else c

/-! ## Modulation and sweep -/

/-- The phase of the modulation has seven bits and a fraction of eight. -/
def advanceCounter (counter : UInt16) (speed : UInt8) : UInt16 :=
  let advanced := counter + speed.toUInt16 * 64
  advanced % 256 + advanced / 256 % 128 * 256

/-- The modulation that applies now, if there is one. A note waits for its delay first. -/
def stepModulation (c : Channel) : Channel × Option Int :=
  if c.modulation.depth = 0 then (c, none)
  else if c.modulationDelay < c.modulation.delay then
    ({ c with modulationDelay := c.modulationDelay + 1 }, none)
  else
    let swing := Curve.sine (c.modulationCounter >>> 8).toUInt8 * c.modulation.range.toNat
      * c.modulation.depth.toNat
    let offset := if c.modulation.kind = 1 then swing * 60 / 0x4000 else swing / 0x100
    ({ c with modulationCounter := advanceCounter c.modulationCounter c.modulation.speed },
      some offset)

/-- The offset of the modulation, if that is of this kind. -/
def swingOf (c : Channel) (kind : UInt8) (swing : Option Int) : Int :=
  if c.modulation.kind = kind then swing.getD 0 else 0

def isSweeping (c : Channel) : Bool :=
  c.sweepPitch ≠ 0 && c.sweepLength ≠ 0 && c.sweepCount ≤ c.sweepLength

/-- The pitch that is left of a sweep, in proportion to the time that is left of it. -/
def sweepOffset (c : Channel) : Int :=
  (c.sweepPitch.toInt * (Int.ofNat c.sweepLength.toNat - c.sweepCount.toNat)).tdiv
    c.sweepLength.toNat

/-! ## Registers -/

def refreshTimer (c : Channel) (sweeping : Bool) (swing : Option Int) : Channel :=
  let pitch := c.tune + c.swingOf 0 swing + (if sweeping then c.sweepOffset else 0)
  let timer := if pitch = 0 then c.timer else Curve.adjustTimer c.timer pitch
  let increase := tickCycles.toFloat / (2 * (max timer 1).toFloat)
  { c with
    sweepCount := if sweeping && !c.manualSweep then c.sweepCount + 1 else c.sweepCount
    registers := { c.registers with increase }
    timerDue := false }

def refreshVolume (c : Channel) (swing : Option Int) : Channel :=
  let level := levelOf c.amplitude + c.trackVolume + c.velocity + c.swingOf 1 swing
  let (volume, divider) := Curve.hardwareVolume (level - Curve.silence)
  { c with
    registers := { c.registers with volume, divider }
    volume := ((volume.toNat * 16) >>> Curve.dividerShift divider).toUInt16
    volumeDue := false }

def refreshPan (c : Channel) (swing : Option Int) : Channel :=
  let pan := c.pan + c.trackPan.toInt + c.swingOf 2 swing + 64
  { c with
    registers := { c.registers with pan := (max 0 (min 127 pan)).toNat.toUInt8 }
    panDue := false }

/-- One tick. What is due is decided by the stage before it. -/
def update (c : Channel) : Channel :=
  let atStart := c.stage = .start
  let sweeping := c.isSweeping
  let timerDue := c.timerDue || atStart || sweeping
  let volumeDue := c.volumeDue || c.stage ≠ .sustain
  let panDue := c.panDue || atStart
  let c := c.stepEnvelope
  if c.stage = .silent then c
  else
    let (c, swing) := c.stepModulation
    let swings := fun (kind : UInt8) => swing.isSome && c.modulation.kind == kind
    let c := if timerDue || swings 0 then c.refreshTimer sweeping swing else c
    let c := if volumeDue || swings 1 then c.refreshVolume swing else c
    if panDue || swings 2 then c.refreshPan swing else c

end Channel

end SoundArchive
