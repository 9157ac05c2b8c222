import SoundArchive.Bank.Basic

/-!
# Voices

What a track tells the channels that play its notes: volume, pan, pitch, envelope and
modulation, and which of these it changed since the channels last looked.
-/

namespace SoundArchive

structure Modulation where
  /-- 0 modulates the pitch, 1 the volume and 2 the pan. -/
  kind : UInt8 := 0
  speed : UInt8 := 16
  depth : UInt8 := 0
  range : UInt8 := 1
  /-- How many updates a note waits before it is modulated. -/
  delay : UInt16 := 10
deriving DecidableEq

structure Envelope where
  attack : UInt8 := 0xFF
  decay : UInt8 := 0xFF
  sustain : UInt8 := 0xFF
  release : UInt8 := 0xFF
deriving DecidableEq

namespace Envelope

/-- A byte of this value leaves that of the instrument. -/
def unset : UInt8 := 0xFF

def pick (byte fallback : UInt8) : UInt8 := if byte = unset then fallback else byte

/-- The envelope of `range`, wherever this one sets nothing else. -/
def resolve (e : Envelope) (range : KeyRange) : Envelope :=
  { attack := pick e.attack range.attack
    decay := pick e.decay range.decay
    sustain := pick e.sustain range.sustain
    release := pick e.release range.release }

end Envelope

structure Updates where
  /-- The track ran, so the notes get shorter. -/
  length : Bool := false
  volume : Bool := false
  pan : Bool := false
  timer : Bool := false
  modulation : Bool := false
deriving DecidableEq

structure Note where
  key : UInt8
  velocity : UInt8
  /-- Runs of the track until the note is released. A negative one holds it. -/
  length : Int32
deriving DecidableEq

structure Voice where
  track : Nat
  priority : UInt8
  portamento : Bool := false
  portamentoKey : UInt8 := 60
  portamentoTime : UInt8 := 0
  sweepPitch : Int16 := 0
  volume : UInt8 := 64
  expression : UInt8 := 127
  pan : Int8 := 0
  bendRange : UInt8 := 2
  pitchBend : Int8 := 0
  transpose : Int8 := 0
  envelope : Envelope := {}
  modulation : Modulation := {}
  updates : Updates := {}
deriving DecidableEq

namespace Voice

/-- The priority of a track in a player of this priority. -/
def basePriority (player : UInt8) : UInt8 := player + 64

def start (track : Nat) (player : UInt8) : Voice :=
  { track, priority := basePriority player }

end Voice

end SoundArchive
