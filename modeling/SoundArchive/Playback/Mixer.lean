import SoundArchive.Playback.Channel.Mix
import SoundArchive.Wave.Archive

/-!
# The mixer

The sixteen channels, and how notes are given channels. A new note takes the least important
channel of its kind, and none if all of them are more important than the note.
-/

namespace SoundArchive

abbrev channelCount : Nat := 16

/-- The bank and the wave archives that notes are played with. -/
structure Instruments where
  bank : Bank
  /-- One for each of the bank's slots, where it is loaded. -/
  waveArchives : List (Option WaveArchive)

namespace Instruments

def wave? (i : Instruments) (range : KeyRange) : Option Wave := do
  let archive ← (i.waveArchives[range.waveArchive.toNat]?).join
  archive.wave? range.wave.toNat

end Instruments

inductive Pool where
  | pcm
  | square
  | noise
deriving DecidableEq

/-- The numbers of the channels of a kind, in the order in which they are considered. -/
def Pool.order : Pool → List Nat
  | pcm => [4, 5, 6, 7, 2, 0, 3, 1, 8, 9, 10, 11, 14, 12, 15, 13]
  | square => [13, 12, 11, 10, 9, 8]
  | noise => [15, 14]

def Pool.channels (pool : Pool) : List (Fin channelCount) :=
  pool.order.filterMap fun n => if h : n < channelCount then some ⟨n, h⟩ else none

structure Mixer where
  channels : Vector Channel channelCount := Vector.ofFn fun i => { id := i.val }
  instruments : Option Instruments := none
  sequenceVolume : Int := 0
  priority : UInt8 := 0

namespace Mixer

/-! ## Channels -/

def channel (m : Mixer) (id : Fin channelCount) : Channel := m.channels.get id

def setChannel (m : Mixer) (id : Fin channelCount) (channel : Channel) : Mixer :=
  { m with channels := m.channels.set id.val channel id.isLt }

def mapChannels (m : Mixer) (f : Channel → Channel) : Mixer :=
  { m with channels := m.channels.map f }

/-! ## Allocation -/

/-- Whether `c` gives way to a new note rather than `d`: it has less priority, or the same and
less volume. -/
def yieldsBefore (c d : Channel) : Bool :=
  c.priority < d.priority || (c.priority == d.priority && c.volume < d.volume)

/-- The channel of `ids` that gives way first, the first of equals. -/
def leastImportant (channels : Vector Channel channelCount) :
    List (Fin channelCount) → Option (Fin channelCount)
  | [] => none
  | id :: ids =>
    some (ids.foldl (fun best id =>
      if yieldsBefore (channels.get id) (channels.get best) then id else best) id)

def allocate? (m : Mixer) (pool : Pool) (priority : UInt8) :
    Option (Fin channelCount × Mixer) :=
  match leastImportant m.channels pool.channels with
  | none => none
  | some id =>
    if priority < (m.channel id).priority then none
    else some (id, m.setChannel id (m.channel id).claim)

/-! ## Sound -/

def sourceOf? (i : Instruments) (range : KeyRange) : Option (Pool × Source) :=
  match range.articulation? with
  | none => none
  | some .squareWave => some (.square, .square (range.wave % 8).toUInt8)
  | some .noise => some (.noise, .noise)
  | some _ => (i.wave? range).map fun wave => (.pcm, .pcm wave)

/-- The samples of a channel. A silent one gives none and stays as it is. -/
def mixChannel (c : Channel) : Channel × Int × Int :=
  if c.isActive then c.mix else (c, 0, 0)

def clampSample (value : Int) : Int := max (-0x8000) (min 0x7FFF value)

def mix (m : Mixer) (masterVolume : Int) : Mixer × Int × Int :=
  let mixed := m.channels.map mixChannel
  let gain := Curve.gain masterVolume
  let output := fun (side : Channel × Int × Int → Int) =>
    clampSample (Curve.scale7 (mixed.foldl (fun sum c => sum + side c) 0) gain)
  ({ m with channels := mixed.map (·.1) }, output (·.2.1), output (·.2.2))

end Mixer

end SoundArchive
