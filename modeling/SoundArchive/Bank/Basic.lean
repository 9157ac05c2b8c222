/-!
# Banks

A bank is a list of instruments, numbered by the patches of a sequence. An instrument is made of
key ranges, each of which says what sounds for a span of keys and how.
-/

namespace SoundArchive

/-- What to play for a span of keys. -/
structure KeyRange where
  lowNote : UInt8
  highNote : UInt8
  /-- Says how the range makes its sound. -/
  record : UInt16
  /-- The wave of a sampled range, the duty cycle of a square wave. -/
  wave : UInt16
  /-- Which of the bank's four wave archives holds the wave. -/
  waveArchive : UInt16
  /-- The key that plays the wave at its own pitch. -/
  baseNote : UInt8
  attack : UInt8
  decay : UInt8
  sustain : UInt8
  release : UInt8
  pan : UInt8
deriving DecidableEq

inductive Articulation where
  | pcm
  | squareWave
  | noise
  /-- Any other record plays a wave too. -/
  | direct (record : UInt16)
deriving DecidableEq

namespace KeyRange

/-- An empty record makes no sound. -/
def articulation? (r : KeyRange) : Option Articulation :=
  match r.record with
  | 0 => none
  | 1 => some .pcm
  | 2 => some .squareWave
  | 3 => some .noise
  | other => some (.direct other)

def usesWave (r : KeyRange) : Bool :=
  match r.articulation? with
  | some .pcm | some (.direct _) => true
  | _ => false

end KeyRange

inductive Instrument where
  /-- Notes are dropped. -/
  | empty
  | single (range : KeyRange)
  /-- A range for every key from `lowNote` on. -/
  | noteTable (lowNote : UInt8) (ranges : List KeyRange)
  /-- Regions of the keyboard, each up to the high note of its range. -/
  | keySplit (ranges : List KeyRange)
deriving DecidableEq

namespace Instrument

def ranges : Instrument → List KeyRange
  | empty => []
  | single range => [range]
  | noteTable _ ranges | keySplit ranges => ranges

def mapRanges (f : KeyRange → KeyRange) : Instrument → Instrument
  | empty => empty
  | single range => single (f range)
  | noteTable lowNote ranges => noteTable lowNote (ranges.map f)
  | keySplit ranges => keySplit (ranges.map f)

def rangeForKey? (i : Instrument) (key : UInt8) : Option KeyRange :=
  match i with
  | empty => none
  | single range => some range
  | noteTable lowNote ranges =>
    match ranges.getLast? with
    | none => none
    | some last =>
      if lowNote ≤ key ∧ key ≤ last.highNote then ranges[(key - lowNote).toNat]? else none
  | keySplit ranges => ranges.find? fun range => key ≤ range.highNote

end Instrument

structure Bank where
  instruments : List Instrument
deriving DecidableEq

def Bank.instrument? (b : Bank) (patch : Nat) : Option Instrument := b.instruments[patch]?

end SoundArchive
