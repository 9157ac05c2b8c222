import SoundArchive.Playback.Length
import SoundArchive.Playback.Random
import SoundArchive.Playback.Track

/-!
# Players

A player runs the tracks of a sequence. Every tick the tempo adds to a counter, and whenever the
counter passes a threshold, all tracks run once. The times at which a track goes back or ends
are recorded.
-/

namespace SoundArchive

structure Part where
  track : Track
  times : Array Length := #[]

structure Player where
  code : Bytes
  parts : List Part
  score : Score
  mixer : Mixer := {}
  tempoCount : Nat := 0
  seconds : Float := 0

namespace Player

def clockRate : Nat := 33513982

def secondsPerTick : Float := tickCycles.toFloat / clockRate.toFloat

def tempoThreshold : Nat := 240

def maxTracks : Nat := 16

def defaultSeed : UInt64 := 0x5D475D47

/-! ## Opening -/

/-- The starts of the tracks that the bytecode opens from `p` on, at most `room` of them, and the
offset behind the openings. An opening that is cut off is no track. -/
def openings (code : Bytes) : (room : Nat) → (p : Nat) → List Nat × Nat
  | 0, p => ([], p)
  | room + 1, p =>
    if (code[p]?.map Opcode.ofByte) = some .openTrack then
      match Bytecode.readU24 code (p + 2) with
      | .error e => ([], e.position)
      | .ok (start, behind) =>
        let (starts, p) := openings code room behind
        (start.toNat :: starts, p)
    else ([], p)

/-- The first command may allocate tracks, and openings follow it. -/
def openedTracks (code : Bytes) : List Nat × Nat :=
  if (code[0]?.map Opcode.ofByte) = some .allocateTracks then openings code (maxTracks - 1) 3
  else ([], 0)

/-- A player at the start of the bytecode. Track 0 goes on behind the openings. -/
def start (code : Bytes) : Player :=
  let (starts, first) := openedTracks code
  { code
    parts := (first :: starts).zipIdx.map fun (start, i) => { track := .start i start 0 }
    score := { random := .ofSeed defaultSeed } }

/-- Plays notes too, not only the bytecode. -/
def withInstruments (p : Player) (instruments : Instruments) : Player :=
  { p with mixer := { p.mixer with instruments := some instruments } }

/-- Sets the volume of the sequence, of seven bits. -/
def withVolume (p : Player) (volume : UInt8) : Player :=
  { p with mixer := { p.mixer with sequenceVolume := Curve.level volume } }

def mapVoices (f : Voice → Voice) (parts : List Part) : List Part :=
  parts.map fun part => { part with track := { part.track with voice := f part.track.voice } }

def withPriority (p : Player) (priority : UInt8) : Player :=
  { p with
    mixer := { p.mixer with priority }
    parts := mapVoices (fun v => { v with priority := Voice.basePriority priority }) p.parts }

def withSeed (p : Player) (seed : UInt64) : Player :=
  { p with score := { p.score with random := .ofSeed seed } }

def rendersNotes (p : Player) : Bool := p.mixer.instruments.isSome

/-! ## Ticks -/

/-- Records what the track hit in its run. -/
def recordTimes (seconds : Float) (times : Array Length) (c : Control) : Array Length :=
  let times := if c.hitLoop then times.push { seconds, kind := .loop } else times
  if c.hitEnd then times.push { seconds, kind := .finish } else times

def runParts (code : Bytes) (seconds : Float) :
    List Part → Score → Mixer → List Part × Score × Mixer
  | [], score, mixer => ([], score, mixer)
  | part :: rest, score, mixer =>
    let { track, score, mixer } := Stand.run code { track := part.track, score, mixer }
    let times := recordTimes seconds part.times track.control
    let control := { track.control with hitLoop := false, hitEnd := false }
    let (rest, score, mixer) := runParts code seconds rest score mixer
    ({ track := { track with control }, times } :: rest, score, mixer)

def markVolume (v : Voice) : Voice := { v with updates := { v.updates with volume := true } }

/-- Runs all tracks once. A new master volume is a change of volume for each of them. -/
def runRound (p : Player) : Player :=
  let (parts, score, mixer) := runParts p.code p.seconds p.parts p.score p.mixer
  if score.volumeChanged then
    { p with parts := mapVoices markVolume parts, score := { score with volumeChanged := false },
             mixer }
  else { p with parts, score, mixer }

/-- How many rounds are due before the counter is no longer beyond the threshold. -/
def roundsDue (tempoCount : Nat) : Nat := (tempoCount - 1) / tempoThreshold

def tick (p : Player) : Player :=
  let rounds := roundsDue p.tempoCount
  let p := { p with tempoCount := p.tempoCount - rounds * tempoThreshold }
  let p := rounds.repeat runRound p
  { p with tempoCount := p.tempoCount + p.score.tempo.toNat,
           seconds := p.seconds + secondsPerTick }

/-! ## Channels -/

/-- Lets a channel follow the track that it plays for. -/
def followTrack (parts : List Part) (baseVolume : Int) (c : Channel) : Channel :=
  match c.track with
  | none => c
  | some track =>
    match parts[track]? with
    | none => c
    | some part => c.follow part.track.voice baseVolume

/-- Lets all channels follow their tracks, and forgets the changes. -/
def updateTracks (p : Player) : Player :=
  { p with
    mixer := p.mixer.mapChannels (followTrack p.parts p.mixer.sequenceVolume)
    parts := mapVoices (fun v => { v with updates := {} }) p.parts }

def updateChannels (p : Player) : Player :=
  { p with mixer := p.mixer.mapChannels Channel.update }

def mix (p : Player) : Player × Int × Int :=
  let (mixer, left, right) := p.mixer.mix p.score.masterVolume
  ({ p with mixer }, left, right)

/-- A mixed tick: the samples, then the channels, then the tracks. -/
def frame (p : Player) : Player × Int × Int :=
  let (p, left, right) := p.mix
  (p.updateTracks.updateChannels.tick, left, right)

end Player

end SoundArchive
