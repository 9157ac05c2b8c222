import SoundArchive.Binary.Header

/-!
# Resource bodies

Sequences, banks and wave archives are stored as bodies of one shape: the standard header, then
a single `DATA` block. Here are the errors of reading or writing such a body, and the 24 bytes
that all of them begin with.
-/

namespace SoundArchive

inductive ResourceError where
  | header (cause : HeaderError)
  | dataBlock (found : Tag)
  | waveFormat (format : UInt8)
  | truncated
  | tooLarge (size : Nat)
deriving DecidableEq

namespace ResourceError

def message : ResourceError → String
  | header _ => "The resource header is invalid"
  | dataBlock found => "Expected a DATA block, found " ++ found.text
  | waveFormat format => "Unknown wave format " ++ toString format.toNat
  | truncated => "The resource body is truncated"
  | tooLarge size => "The encoded resource is too large (" ++ toString size ++ " bytes)"

/-- Whether a lenient reader may leave the resource unread and go on. -/
def isMissingResource : ResourceError → Bool
  | header _ => true
  | _ => false

end ResourceError

/-- What to do with a body that does not begin with the header it should. -/
inductive DecodePolicy where
  | failHard
  | bestEffort
deriving DecidableEq

namespace Resource

def dataTag : Tag := .ofChars 'D' 'A' 'T' 'A'

/-- Where the block's own contents begin. -/
def prologueLength : Nat := Header.length + 8

/-- The bytes that banks and wave archives reserve in front of their entry count. -/
def reservedLength : Nat := 32

/-- The value of a field that must be there. -/
def required {α : Type} (field : Option α) : Except ResourceError α :=
  match field with
  | some value => .ok value
  | none => .error .truncated

/-- Checks the header and the tag of the block, and returns the size that the block declares. -/
def readPrologue (body : Bytes) (expected : Tag) : Except ResourceError UInt32 := do
  let header ← required (Header.read? body 0)
  match header.verify expected with
  | .error e => throw (.header e)
  | .ok () =>
    let tag ← required (Tag.read? body Header.length)
    if tag ≠ dataTag then throw (.dataBlock tag)
    required (body.u32? (Header.length + 4))

def prologue (tag : Tag) (total : Nat) : Bytes :=
  (Header.standard tag total.toUInt32 Header.length.toUInt16 1).encode ++ dataTag.toArray
    ++ Bytes.ofU32 (total - Header.length).toUInt32

end Resource

end SoundArchive
