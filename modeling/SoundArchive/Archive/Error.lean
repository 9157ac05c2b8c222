import SoundArchive.Archive.Entry
import SoundArchive.Text.Blank

/-!
# Errors of decoding

What can be wrong with the bytes of an archive.
-/

namespace SoundArchive

/-- How bytes can be too few. -/
inductive Shortage where
  /-- A field is cut off. -/
  | field
  /-- A name has no end. -/
  | name
deriving DecidableEq

def Shortage.message : Shortage → String
  | field => "failed to fill whole buffer"
  | name => "unexpected end of file"

/-- A part of an archive with a place of its own. -/
inductive ArchivePart where
  | section (tag : Tag)
  | body (kind : EntryKind) (slot : Nat)
deriving DecidableEq

inductive DecodeError where
  | header (cause : HeaderError)
  | sectionTag (expected found : Tag)
  | sectionSize (tag : Tag) (declared minimum : Nat)
  | outOfBounds (part : ArchivePart) (start stop : Nat)
  | truncated (cause : Shortage)
  | missingFile (kind : EntryKind) (slot : Nat) (fileId : UInt16)
  | resource (kind : EntryKind) (slot : Nat) (cause : ResourceError)
  | noSequences
deriving DecidableEq

/-- The text of a tag without the blanks at its end. -/
def Tag.name (tag : Tag) : String := String.ofList (Text.trimEnd tag.text.toList)

def ArchivePart.label : ArchivePart → String
  | .section tag => tag.name ++ " section"
  | .body kind slot => "body of " ++ kind.label ++ " " ++ toString slot

def DecodeError.message : DecodeError → String
  | header _ => "The archive header is invalid"
  | sectionTag expected found =>
    "Expected a " ++ expected.text ++ " section, found " ++ found.text
  | sectionSize tag declared minimum =>
    "The " ++ tag.name ++ " section declares " ++ toString declared
      ++ " bytes, it needs at least " ++ toString minimum
  | outOfBounds part start stop =>
    "The " ++ part.label ++ " at " ++ Text.hex start 0 ++ ".." ++ Text.hex stop 0
      ++ " extends past the end of the data"
  | truncated _ => "The archive data is truncated"
  | missingFile kind slot fileId =>
    kind.label ++ " " ++ toString slot ++ " refers to file " ++ toString fileId.toNat
      ++ ", which is not in the file table"
  | resource kind slot _ => "Decoding " ++ kind.label ++ " " ++ toString slot ++ " failed"
  | noSequences => "The archive contains no sequences"

end SoundArchive
