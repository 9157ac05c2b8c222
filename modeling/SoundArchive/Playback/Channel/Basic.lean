import SoundArchive.Playback.Curve
import SoundArchive.Playback.Voice
import SoundArchive.Wave.Basic

/-!
# Channels

One of the sixteen channels of the sound hardware, and how notes come and go on it. A note goes
through the stages of its envelope until the channel is silent again.
-/

namespace SoundArchive

inductive Stage where
  | silent
  | start
  | attack
  | decay
  | sustain
  | release
deriving DecidableEq

inductive Source where
  | pcm (wave : Wave)
  | square (duty : UInt8)
  | noise

namespace Source

/-- The timer of sources without a wave: eight steps for each period of the key 69. -/
def ownTimer : UInt16 := 4766

def ownKey : UInt8 := 69

def timer : Source → UInt16
  | pcm wave => wave.timer
  | _ => ownTimer

/-- The key that plays the source at its own timer. -/
def baseKey (range : KeyRange) : Source → UInt8
  | pcm _ => range.baseNote
  | _ => ownKey

/-- Where playback begins: the hardware takes a few samples to start. -/
def firstPosition : Source → Float
  | pcm _ => -3
  | _ => -1

end Source

/-- The registers of a channel, as the mixer sees them. -/
structure Registers where
  source : Option Source := none
  volume : UInt8 := 0
  divider : UInt8 := 0
  pan : UInt8 := 0
  /-- In samples, negative while the hardware starts. -/
  position : Float := 0
  /-- The samples to advance each time. -/
  increase : Float := 0
  noise : UInt16 := 0
  noiseSample : Int := 0
  /-- The position up to which the noise has run. -/
  noisePosition : UInt32 := 0

structure Channel where
  id : Nat
  stage : Stage := .silent
  track : Option Nat := none
  priority : UInt8 := 0
  /-- Runs of the track until the note is released. A negative one holds it. -/
  noteLength : Int32 := -1
  /-- The volume that the hardware was given, by which channels are chosen for new notes. -/
  volume : UInt16 := 0
  source : Option Source := none
  timer : UInt16 := 0
  volumeDue : Bool := false
  panDue : Bool := false
  timerDue : Bool := false
  key : UInt8 := 0
  baseKey : UInt8 := 0
  velocity : Int := 0
  pan : Int := 0
  trackVolume : Int := 0
  trackPan : Int8 := 0
  /-- The steps by which key and bend change the pitch. -/
  tune : Int := 0
  /-- The level of the envelope, in the scale of amplitudes. -/
  amplitude : Int32 := Curve.silentAmplitude
  modulation : Modulation := {}
  modulationDelay : UInt16 := 0
  modulationCounter : UInt16 := 0
  sweepPitch : Int16 := 0
  sweepLength : UInt32 := 0
  sweepCount : UInt32 := 0
  /-- The sweep goes on with the runs of the track rather than with the updates. -/
  manualSweep : Bool := false
  attack : UInt8 := 0
  decay : UInt16 := 0
  sustain : UInt8 := 0
  release : UInt16 := 0
  registers : Registers := {}

namespace Channel

def isActive (c : Channel) : Bool := c.stage ≠ .silent

/-- Whether the channel plays a note of `track` that was not released. -/
def holdsNoteOf (c : Channel) (track : Nat) : Bool :=
  c.isActive && c.track == some track && c.stage ≠ .release

/-! ## Following a voice -/

/-- The pan that a byte stands for, around 0. -/
def centredPan (pan : UInt8) : Int := max (-64) (min 63 (pan.toNat - 64))

def followVolume (c : Channel) (v : Voice) (baseVolume : Int) : Channel :=
  { c with
    trackVolume := max Curve.silence
      (baseVolume + Curve.level v.volume + Curve.level v.expression) }

def followPan (c : Channel) (v : Voice) : Channel := { c with trackPan := v.pan }

def followTune (c : Channel) (v : Voice) : Channel :=
  { c with tune := (Int.ofNat c.key.toNat - c.baseKey.toNat) * Curve.stepsPerSemitone
      + v.pitchBend.toInt * v.bendRange.toNat / 2 }

def followModulation (c : Channel) (v : Voice) : Channel := { c with modulation := v.modulation }

/-- Starts the sweep of a note: that of the track, and from the last key with portamento. With a
time of 0 it lasts as long as the note, otherwise longer the further it goes. -/
def followPortamento (c : Channel) (v : Voice) : Channel :=
  let c := { c with manualSweep := false, sweepPitch := v.sweepPitch, sweepCount := 0 }
  if !v.portamento then { c with sweepLength := 0 }
  else
    let distance := (Int.ofNat v.portamentoKey.toNat - c.key.toNat) * Curve.stepsPerSemitone
    let sweepPitch := c.sweepPitch + Int16.ofInt distance
    if v.portamentoTime = 0 then
      { c with sweepPitch, sweepLength := c.noteLength.toUInt32, manualSweep := true }
    else
      let time := v.portamentoTime.toNat * v.portamentoTime.toNat
      { c with sweepPitch
               sweepLength := (sweepPitch.toInt.natAbs * time / 2048).toUInt32 }

def clearDue (c : Channel) : Channel :=
  { c with volumeDue := false, panDue := false, timerDue := false }

/-! ## Notes -/

/-- Takes the channel for a new note. -/
def claim (c : Channel) : Channel := { c with noteLength := -1, volume := 0 }

/-- Starts a note, with the envelope of `range` unless the voice sets another. -/
def start (c : Channel) (source : Source) (range : KeyRange) (v : Voice) (note : Note)
    (baseVolume : Int) : Channel :=
  let envelope := v.envelope.resolve range
  let c := { c with
    source := some source
    timer := source.timer
    registers := { c.registers with
      position := source.firstPosition, noise := 0x7FFF, increase := 0 }
    stage := .start
    track := some v.track
    priority := v.priority
    key := note.key
    baseKey := source.baseKey range
    velocity := Curve.level note.velocity
    pan := centredPan range.pan
    modulationDelay := 0
    modulationCounter := 0
    noteLength := note.length
    attack := Curve.attackFactor envelope.attack
    decay := Curve.fallStep envelope.decay
    sustain := envelope.sustain
    release := Curve.fallStep envelope.release }
  let c := (c.clearDue.followVolume v baseVolume).followPan v
  ((c.followTune v).followModulation v).followPortamento v

def retrigger (c : Channel) (v : Voice) (key velocity : UInt8) (baseVolume : Int) : Channel :=
  let c := { c.clearDue with
    priority := v.priority
    key
    velocity := Curve.level velocity
    modulationDelay := 0
    modulationCounter := 0 }
  let c := ((c.followVolume v baseVolume).followTune v).followModulation v
  { c.followPortamento v with timerDue := true }

def letGo (c : Channel) : Channel := { c with noteLength := -1, priority := 1, stage := .release }

def kill (c : Channel) : Channel :=
  { c with stage := .silent, track := none, priority := 0, volume := 0, noteLength := -1,
           registers := {} }

/-! ## Runs of the track -/

/-- Counts down the note when the track ran, and a sweep that goes with it. -/
def countRun (c : Channel) : Channel :=
  if c.stage = .silent ∨ c.stage = .start then c
  else
    let c :=
      if c.stage = .release then c
      else
        let c := { c with noteLength := c.noteLength - 1 }
        if c.noteLength = 0 then c.letGo else c
    if c.manualSweep ∧ c.sweepCount < c.sweepLength then
      { c with sweepCount := c.sweepCount + 1 }
    else c

/-- Takes over what the track changed. Another kind of modulation touches everything. -/
def follow (c : Channel) (v : Voice) (baseVolume : Int) : Channel :=
  let c := if v.updates.length then c.countRun else c
  let c :=
    if v.updates.volume then { c.followVolume v baseVolume with volumeDue := true } else c
  let c := if v.updates.pan then { c.followPan v with panDue := true } else c
  let c := if v.updates.timer then { c.followTune v with timerDue := true } else c
  if v.updates.modulation then
    let kind := c.modulation.kind
    let c := c.followModulation v
    if kind = c.modulation.kind then c
    else { c with volumeDue := true, panDue := true, timerDue := true }
  else c

end Channel

end SoundArchive
