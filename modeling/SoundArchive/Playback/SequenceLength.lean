import SoundArchive.Archive.Basic
import SoundArchive.Playback.Measure

/-!
# The length of a sequence

A sequence is timed without its instruments first. If it goes back that is its length, and if it
ends it is played again to hear its last notes out.
-/

namespace SoundArchive

inductive LengthError where
  | missingSequence (n : Nat)
  | unreadSequence (n : Nat)
deriving DecidableEq

def LengthError.message : LengthError → String
  | missingSequence n => "There is no sequence " ++ toString n
  | unreadSequence n => "Sequence " ++ toString n ++ " was not decoded"

namespace Archive

/-- The instruments of a sequence, if its bank was read. -/
def instrumentsOf (a : Archive) (sequence : SequenceEntry) : Option Instruments := do
  let entry ← a.bank? sequence.settings.bank
  let bank ← entry.resource
  return { bank, waveArchives := a.waveArchivesOf entry }

def playerOf (settings : SequenceSettings) (code : Bytes) (options : LengthOptions) : Player :=
  ((Player.start code).withVolume settings.volume).withPriority settings.playerPriority
    |>.withSeed options.seed

/-- The length with the last notes, or without them where they take too long. -/
def renderedLength (player : Player) (instruments : Instruments) (options : LengthOptions)
    (timed : Length) : Length :=
  ((player.withInstruments instruments).measure options
    (timed.seconds + options.renderMargin)).getD timed

def sequenceLength (a : Archive) (n : Nat) (options : LengthOptions) :
    Except LengthError (Option Length) :=
  match a.sequence? n with
  | none => .error (.missingSequence n)
  | some entry =>
    match entry.resource with
    | none => .error (.unreadSequence n)
    | some sequence =>
      let player := playerOf entry.settings sequence.code options
      .ok ((player.measure options options.maxSeconds).map fun timed =>
        match timed.kind, a.instrumentsOf entry with
        | .finish, some instruments => renderedLength player instruments options timed
        | _, _ => timed)

end Archive

end SoundArchive
