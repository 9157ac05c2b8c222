import SoundArchive.Archive.Entry
import SoundArchive.Ascending

/-!
# Stripping players

Only the players that sequences use are kept, and of those with the same settings only one.
-/

namespace SoundArchive

/-- The settings to keep, in the order of the slots that `used` names first. -/
def keptPlayers (players : Slots PlayerSettings) (used : List UInt8) : List PlayerSettings :=
  ((ascending used).filterMap fun n => players.entry? n.toNat).eraseDups

/-- The new slot of a player. A player that does not exist keeps its number. -/
def movedPlayer (players : Slots PlayerSettings) (kept : List PlayerSettings) (n : UInt8) :
    UInt8 :=
  match players.entry? n.toNat with
  | some settings => (kept.idxOf settings).toUInt8
  | none => n

end SoundArchive
