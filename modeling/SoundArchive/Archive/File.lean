import SoundArchive.Archive.Decode
import SoundArchive.Text.Path

/-!
# Archives in files

An archive that is read from a file is known by the name of the file.
-/

namespace SoundArchive

/-- What there is at a path. -/
inductive PathContents where
  | nothing
  | folder
  | file (data : Bytes)
deriving DecidableEq

inductive ReadError where
  /-- The bytes cannot be had. -/
  | unreadable
  | decode (cause : DecodeError)
deriving DecidableEq

def ReadError.message : ReadError → String
  | unreadable => "Reading the archive failed"
  | decode _ => "Decoding the archive failed"

inductive FileError where
  /-- There is nothing at the path. -/
  | unopened
  | read (cause : ReadError)
deriving DecidableEq

def FileError.message : FileError → String
  | unopened => "Opening the file failed"
  | read _ => "Reading the archive from file failed"

namespace Archive

/-- An archive from all that a source of bytes had to give. -/
def read (data : Bytes) (archiveId : String) (policy : DecodePolicy) :
    Except ReadError Archive :=
  match decode data archiveId policy with
  | .ok archive => .ok archive
  | .error e => .error (.decode e)

/-- The archive at a path, where there are these contents. A folder can be opened, but not read. -/
def ofFile (path : String) (contents : PathContents) (policy : DecodePolicy) :
    Except FileError Archive :=
  match contents with
  | .nothing => .error .unopened
  | .folder => .error (.read .unreadable)
  | .file data =>
    match read data ((Path.fileName? path).getD "") policy with
    | .ok archive => .ok archive
    | .error e => .error (.read e)

end Archive

end SoundArchive
