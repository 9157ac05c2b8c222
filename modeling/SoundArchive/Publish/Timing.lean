import SoundArchive.Playback.Length
import SoundArchive.Publish.TagList

/-!
# Timing tags

A published sequence says how long it plays and how long it fades out then.
-/

namespace SoundArchive

structure Fades where
  ofLoop : Nat := 10
  ofOneShot : Nat := 0

namespace TagList

def fadeTag : String := "fade"

def lengthTag : String := "length"

/-- Puts in the tags of a length, or takes them out where there is none. A length that rounds to
nothing is one second. -/
def setTiming (l : TagList) (length : Option Length) (fades : Fades) : TagList :=
  match length with
  | none => (l.remove fadeTag).remove lengthTag
  | some length =>
    let fade := match length.kind with
      | .loop => fades.ofLoop
      | .finish => fades.ofOneShot
    let seconds := if length.seconds.ceil == 0 then 1 else length.seconds
    (l.set fadeTag (toString fade)).set lengthTag (Length.format seconds)

end TagList

end SoundArchive
