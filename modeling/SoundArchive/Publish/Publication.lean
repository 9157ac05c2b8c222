import SoundArchive.Archive.Encode
import SoundArchive.Publish.TagList

/-!
# Publications

A publication wraps an archive, or a sequence of one, into a file with tags. A sequence may
leave its archive to a library that several of them share.
-/

namespace SoundArchive

structure Publication where
  /-- Holds the number of the sequence to play. -/
  reserved : Bytes
  /-- An encoded archive, or nothing where a library has it. -/
  program : Bytes
  tags : TagList
deriving DecidableEq

namespace Publication

/-- Names the maker of the file. -/
def producerTag : String := "ncsfby"

/-- Names the library that has the archive. -/
def libraryTag : String := "_lib"

/-- Names the sequence, or the archive, that was published. -/
def publishedNameTag : String := "origFilename"

/-- Plays sequence 0 of the archive inside. -/
def standalone (archive : Archive) (tags : TagList) : Publication :=
  { reserved := Bytes.ofU32 0, program := archive.encode, tags }

def library (archive : Archive) : Publication :=
  { reserved := #[], program := archive.encode, tags := {} }

/-- Plays sequence `n` of the archive in a library. -/
def sequence (n : UInt32) (library : String) (tags : TagList) : Publication :=
  { reserved := Bytes.ofU32 n, program := #[], tags := tags.set libraryTag library }

def sequenceNumber? (p : Publication) : Option UInt32 := p.reserved.u32? 0

def archive (p : Publication) : Except DecodeError Archive :=
  Archive.decode p.program ((p.tags.get? publishedNameTag).getD "") .failHard

end Publication

end SoundArchive
