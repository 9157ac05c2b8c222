import SoundArchive.Archive.Basic
import SoundArchive.CommandLine.Failure
import SoundArchive.Playback.SequenceLength
import SoundArchive.Publish.Publication
import SoundArchive.Publish.Timing

/-!
# Listings

Archives as lines of text: what is in them, and how long their sequences play.
-/

namespace SoundArchive

namespace Archive

/-! ## Contents -/

/-- The archive that the first sequence came from. -/
def origin (a : Archive) : String := ((a.sequences.live.head?).map (·.archiveId)).getD ""

def summaryLine (a : Archive) : String :=
  Text.atLeft 32 a.origin ++ "Seq " ++ toString a.sequences.liveCount
    ++ " | Bank " ++ toString a.banks.liveCount
    ++ " | Wave " ++ toString a.waveArchives.liveCount
    ++ " | Player " ++ toString a.players.liveCount ++ " | Files " ++ toString a.fileCount

def sequenceLine (n : Nat) (entry : SequenceEntry) : String :=
  Text.numberAtRight 5 n ++ " | " ++ Text.atLeft 24 entry.name
    ++ " | bank " ++ Text.numberAtRight 4 entry.settings.bank.toNat
    ++ " | player " ++ Text.numberAtRight 3 entry.settings.player.toNat
    ++ " | vol " ++ Text.numberAtRight 3 entry.settings.volume.toNat
    ++ " | " ++ Text.numberAtRight 6 entry.body.size ++ " bytes"
    ++ (if entry.resource.isSome then "" else " (undecoded)")

def listing (a : Archive) : List String :=
  a.summaryLine :: a.liveSequences.map fun (n, entry) => sequenceLine n entry

/-! ## Lengths -/

def lengthText : Option Length → String
  | none => "--:-- | unknown"
  | some length =>
    Length.format length.seconds ++ " | " ++ match length.kind with
      | .loop => "loop"
      | .finish => "end"

def timeLine (n : Nat) (entry : SequenceEntry) (length : Option Length) : String :=
  Text.numberAtRight 5 n ++ " | " ++ Text.atLeft 24 entry.name ++ " | " ++ lengthText length

def producer : String := "sdat-tools"

def publishedTags (n : Nat) (entry : SequenceEntry) (library : String) (fades : Fades)
    (length : Option Length) : TagList :=
  let tags := (({} : TagList).set Publication.producerTag producer).set
    Publication.publishedNameTag entry.name
  (Publication.sequence n.toUInt32 library (tags.setTiming length fades)).tags

def tagLines (tags : TagList) : List String :=
  (Text.lines tags.toText.toList).map fun line => "      " ++ String.ofList line

end Archive

end SoundArchive
