import SoundArchive.Playback.Player

/-!
# Measuring

A sequence without instruments has a length once every track has gone back often enough or
ended. With instruments it is over when it has been silent for long enough.
-/

namespace SoundArchive

structure LengthOptions where
  /-- How often a track has to go back to count as looped. -/
  loops : Nat := 2
  /-- The time after which a sequence has no length. -/
  maxSeconds : Float := 6000
  /-- How much longer notes may sound than the tracks run. -/
  renderMargin : Float := 30
  /-- The silence after which a sequence is over. -/
  trailingSilence : Float := 20
  seed : UInt64 := Player.defaultSeed

namespace Player

/-! ## Classification -/

structure Tally where
  looped : Nat := 0
  ended : Nat := 0
  /-- The latest time of a track that has looped or ended. -/
  latest : Length := { seconds := -1, kind := .loop }

namespace Tally

def note (t : Tally) (time : Length) : Tally :=
  if time.seconds > t.latest.seconds then { t with latest := time } else t

/-- Counts a track by the last of its times. -/
def add (loops : Nat) (t : Tally) (times : Array Length) : Tally :=
  match times.back? with
  | none => t
  | some last =>
    match last.kind with
    | .finish => { t with ended := t.ended + 1 }.note last
    | .loop =>
      if times.size ≥ loops then { t with looped := t.looped + 1 }.note last else t

end Tally

def tally (p : Player) (loops : Nat) : Tally :=
  p.parts.foldl (fun t part => t.add loops part.times) {}

/-- The length, once every track has gone back `loops` times or ended. Where some did the one
and some the other, the latest of them decides. -/
def classify (p : Player) (loops : Nat) : Option Length :=
  let t := p.tally loops
  let tracks := p.parts.length
  let seconds := if t.latest.seconds > 0 then t.latest.seconds else 0
  if t.looped = tracks then some { seconds, kind := .loop }
  else if t.ended = tracks then some { seconds, kind := .finish }
  else if t.looped + t.ended = tracks then some { seconds, kind := t.latest.kind }
  else none

/-! ## Playing to the end -/

/-- The length of what was heard, once it has been silent for long enough. -/
def silentLength (p : Player) (silence trailing : Float) : Option Length :=
  if silence ≥ trailing then
    let seconds := p.seconds - silence
    some { seconds := if seconds > 0 then seconds else 0, kind := .finish }
  else none

/-- Plays tick by tick until the length is known or the time is up. -/
def measureFrom (options : LengthOptions) (maxSeconds : Float) :
    (ticks : Nat) → Player → (silence : Float) → Option Length
  | 0, _, _ => none
  | ticks + 1, p, silence =>
    let (p, silence) :=
      if p.rendersNotes then
        let (p, left, right) := p.mix
        (p.updateTracks.updateChannels,
          if left = 0 ∧ right = 0 then silence + secondsPerTick else 0)
      else (p, silence)
    let p := p.tick
    let length := if p.rendersNotes then p.silentLength silence options.trailingSilence
      else p.classify options.loops
    match length with
    | some length => some length
    | none => if p.seconds > maxSeconds then none else measureFrom options maxSeconds ticks p silence

/-- More ticks than any time that can be measured. -/
def maxTicks : Nat := 0x4000000000000000

/-- The length, unless the time is up first or nobody waits for it any more. -/
def measure (p : Player) (options : LengthOptions) (maxSeconds : Float)
    (cancelled : Bool := false) : Option Length :=
  if cancelled then none else measureFrom options maxSeconds maxTicks p 0

end Player

end SoundArchive
