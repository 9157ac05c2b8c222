import SoundArchive.Playback.Control
import SoundArchive.Playback.Mixer

/-!
# Tracks

A track runs its bytecode and plays its notes. What an instruction does is in two parts: the
control decides what comes next and when, and the voice is what is heard of it.
-/

namespace SoundArchive

namespace Voice

/-- The key of a note, moved by the transposition. -/
def transposed (v : Voice) (key : Int) : UInt8 :=
  (max 0 (min 127 (key + v.transpose.toInt))).toNat.toUInt8

/-! ## Notes -/

/-- Starts a note of the instrument `patch`, if there is a channel and something to play. -/
def noteOn (v : Voice) (m : Mixer) (patch : UInt32) (note : Note) : Voice × Mixer :=
  let started := do
    let instruments ← m.instruments
    let instrument ← instruments.bank.instrument? patch.toNat
    let range ← instrument.rangeForKey? note.key
    let (pool, source) ← Mixer.sourceOf? instruments range
    let (id, m) ← m.allocate? pool v.priority
    return m.setChannel id ((m.channel id).start source range v note m.sequenceVolume)
  match started with
  | none => (v, m)
  | some m => ({ v with portamentoKey := note.key }, m)

/-- Changes the key of the note that the track holds, or starts one that is held. -/
def tieNote (v : Voice) (m : Mixer) (patch : UInt32) (note : Note) : Voice × Mixer :=
  match (List.finRange channelCount).find? fun id => (m.channel id).holdsNoteOf v.track with
  | some id =>
    let channel := (m.channel id).retrigger v note.key note.velocity m.sequenceVolume
    ({ v with portamentoKey := note.key }, m.setChannel id channel)
  | none => v.noteOn m patch { note with length := -1 }

/-- Plays a note, if there are instruments at all. -/
def playNote (v : Voice) (m : Mixer) (c : Control) (note : Note) : Voice × Mixer :=
  if m.instruments.isNone then (v, m)
  else if c.tie then v.tieNote m c.patch note
  else v.noteOn m c.patch note

def releaseNotes (v : Voice) (m : Mixer) : Mixer :=
  m.mapChannels fun channel => if channel.holdsNoteOf v.track then channel.letGo else channel

/-! ## Instructions -/

def setVolume (v : Voice) (volume : UInt8) : Voice :=
  { v with volume, updates := { v.updates with volume := true } }

def setExpression (v : Voice) (expression : UInt8) : Voice :=
  { v with expression, updates := { v.updates with volume := true } }

def setPan (v : Voice) (pan : UInt8) : Voice :=
  { v with pan := Int8.ofInt (Channel.centredPan pan), updates := { v.updates with pan := true } }

def setPitchBend (v : Voice) (pitchBend : Int8) : Voice :=
  { v with pitchBend, updates := { v.updates with timer := true } }

def setBendRange (v : Voice) (bendRange : UInt8) : Voice :=
  { v with bendRange, updates := { v.updates with timer := true } }

def setModulation (v : Voice) (modulation : Modulation) : Voice :=
  { v with modulation, updates := { v.updates with modulation := true } }

/-- What is heard of an instruction, under the control that the track had when it came up. -/
def perform (v : Voice) (m : Mixer) (c : Control) (i : Instruction) : Voice × Mixer :=
  let byte := i.first.toUInt32.toUInt8
  match i.opcode with
  | .note key =>
    let note := { key := v.transposed key.toNat, velocity := byte, length := i.second }
    v.playNote m c note
  | .tie => (v, v.releaseNotes m)
  | .pan => (v.setPan byte, m)
  | .volume => (v.setVolume byte, m)
  | .expression => (v.setExpression byte, m)
  | .priority => ({ v with priority := m.priority + byte }, m)
  | .transpose => ({ v with transpose := i.first.toInt8 }, m)
  | .pitchBend => (v.setPitchBend i.first.toInt8, m)
  | .bendRange => (v.setBendRange byte, m)
  | .attack => ({ v with envelope := { v.envelope with attack := byte } }, m)
  | .decay => ({ v with envelope := { v.envelope with decay := byte } }, m)
  | .sustain => ({ v with envelope := { v.envelope with sustain := byte } }, m)
  | .release => ({ v with envelope := { v.envelope with release := byte } }, m)
  | .portamentoKey =>
    ({ v with portamentoKey := v.transposed i.first.toInt, portamento := true }, m)
  | .portamento => ({ v with portamento := i.first ≠ 0 }, m)
  | .portamentoTime => ({ v with portamentoTime := byte }, m)
  | .sweepPitch => ({ v with sweepPitch := i.first.toInt16 }, m)
  | .modulationDepth => (v.setModulation { v.modulation with depth := byte }, m)
  | .modulationSpeed => (v.setModulation { v.modulation with speed := byte }, m)
  | .modulationKind => (v.setModulation { v.modulation with kind := byte }, m)
  | .modulationRange => (v.setModulation { v.modulation with range := byte }, m)
  | .modulationDelay =>
    (v.setModulation { v.modulation with delay := i.first.toUInt32.toUInt16 }, m)
  | _ => (v, m)

end Voice

/-! ## Running -/

structure Track where
  control : Control
  voice : Voice

/-- A track, and what it shares with the others. -/
structure Stand where
  track : Track
  score : Score
  mixer : Mixer

namespace Track

/-- A track that starts at `start`, in a player of this priority. -/
def start (number : Nat) (start : Nat) (player : UInt8) : Track :=
  { control := { position := start }, voice := .start number player }

/-- The commands that a track may execute in one run without waiting. -/
def commandLimit : Nat := 4096

end Track

namespace Stand

def step (code : Bytes) (s : Stand) : Stand :=
  let before := s.track.control
  let (control, score, done) := before.step code s.score
  match done with
  | none => { s with track := { s.track with control }, score }
  | some i =>
    let (voice, mixer) := s.track.voice.perform s.mixer before i
    { track := { control, voice }, score, mixer }

/-- Executes up to `limit` commands, until the track waits or has ended. -/
def play (code : Bytes) : (limit : Nat) → Stand → Stand
  | 0, s => s
  | limit + 1, s =>
    if s.track.control.wait ≠ 0 ∨ s.track.control.ended then s else play code limit (s.step code)

/-- One run: counts down the wait, and executes commands when it is over. -/
def run (code : Bytes) (s : Stand) : Stand :=
  let voice := { s.track.voice with updates := { s.track.voice.updates with length := true } }
  let control := s.track.control
  if control.ended then { s with track := { control, voice } }
  else
    let control := { control with wait := control.wait - (if control.wait = 0 then 0 else 1) }
    play code Track.commandLimit { s with track := { control, voice } }

end Stand

end SoundArchive
