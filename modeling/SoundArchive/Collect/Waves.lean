import SoundArchive.Archive.Basic
import SoundArchive.Collect.Selection

/-!
# Collecting waves

A wave archive has to keep the waves that the instruments of its banks play.
-/

namespace SoundArchive

/-- The instruments of a bank, and the wave archives that they take their waves from. -/
structure WaveUser where
  slots : Vector UInt16 4
  /-- None of a bank that was not read. -/
  instruments : Option (List Instrument)

namespace WaveUser

/-- The number of the wave archive that a range takes its wave from. -/
def waveArchiveOf? (slots : Vector UInt16 4) (range : KeyRange) : Option Nat :=
  if range.usesWave then slots[range.waveArchive.toNat]?.map UInt16.toNat else none

def refersTo (user : WaveUser) (waveArchive : Nat) : Bool :=
  user.slots.toList.any fun n => n.toNat == waveArchive

def wavesOf (user : WaveUser) (waveArchive : Nat) : List Nat :=
  ((user.instruments.getD []).flatMap Instrument.ranges).filterMap fun range =>
    if waveArchiveOf? user.slots range = some waveArchive then some range.wave.toNat else none

end WaveUser

structure ShrunkWaves where
  selection : Selection
  waves : WaveArchive

namespace WaveArchive

def shrink (a : WaveArchive) (used : List Nat) : ShrunkWaves :=
  let selection := .ofUsed (fun n => (a.wave? n).isSome) used
  { selection, waves := .ofWaves (selection.kept.filterMap a.wave?) }

/-- What is left of wave archive `n`. It is left alone if no bank refers to it, or one that was
not read does. -/
def shrinkFor (a : WaveArchive) (n : Nat) (users : List WaveUser) : Option ShrunkWaves :=
  let users := users.filter (·.refersTo n)
  if users.isEmpty || users.any (·.instruments.isNone) then none
  else some (a.shrink (users.flatMap (·.wavesOf n)))

end WaveArchive

def KeyRange.renumberWave (shrunk : Array (Option ShrunkWaves)) (slots : Vector UInt16 4)
    (range : KeyRange) : KeyRange :=
  match (WaveUser.waveArchiveOf? slots range).bind fun n => shrunk[n]?.join with
  | none => range
  | some s => { range with wave := (s.selection.renumber range.wave.toNat).toUInt16 }

end SoundArchive
