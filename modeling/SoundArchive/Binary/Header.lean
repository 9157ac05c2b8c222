import SoundArchive.Binary.Bytes
import SoundArchive.Text.Hex
import SoundArchive.Text.Lossy

/-!
# The standard header

Every file, the archive as well as the resources inside it, begins with the same 16 bytes: a
tag of four characters, a magic number, the size of the file, the size of the header and the
number of blocks behind it.
-/

namespace SoundArchive

/-- Four characters that name a kind of file or block. -/
abbrev Tag := Vector UInt8 4

namespace Tag

def ofChars (a b c d : Char) : Tag := #v[a.toNat.toUInt8, b.toNat.toUInt8, c.toNat.toUInt8,
  d.toNat.toUInt8]

def text (tag : Tag) : String := Text.lossy tag.toList

def read? (bytes : Bytes) (offset : Nat) : Option Tag := do
  let a ← bytes[offset]?
  let b ← bytes[offset + 1]?
  let c ← bytes[offset + 2]?
  let d ← bytes[offset + 3]?
  return #v[a, b, c, d]

end Tag

structure Header where
  tag : Tag
  magic : UInt32
  fileSize : UInt32
  headerSize : UInt16
  blocks : UInt16
deriving DecidableEq

/-- A header that lacks the expected tag or the standard magic. -/
structure HeaderError where
  expected : Tag
  found : Tag
  magic : UInt32
deriving DecidableEq

namespace HeaderError

def message (e : HeaderError) : String :=
  "Expected a " ++ e.expected.text ++ " header, found " ++ e.found.text ++ " with magic "
    ++ Text.hex e.magic.toNat 8

end HeaderError

namespace Header

/-- Byte order mark and version, the same in all files. -/
def standardMagic : UInt32 := 0x0100FEFF

def magicBytes : Bytes := #[0xFF, 0xFE, 0x00, 0x01]

def length : Nat := 16

def standard (tag : Tag) (fileSize : UInt32) (headerSize blocks : UInt16) : Header :=
  { tag, magic := standardMagic, fileSize, headerSize, blocks }

def read? (bytes : Bytes) (offset : Nat) : Option Header := do
  let tag ← Tag.read? bytes offset
  let magic ← bytes.u32? (offset + 4)
  let fileSize ← bytes.u32? (offset + 8)
  let headerSize ← bytes.u16? (offset + 12)
  let blocks ← bytes.u16? (offset + 14)
  return { tag, magic, fileSize, headerSize, blocks }

def encode (h : Header) : Bytes :=
  h.tag.toArray ++ Bytes.ofU32 h.magic ++ Bytes.ofU32 h.fileSize ++ Bytes.ofU16 h.headerSize
    ++ Bytes.ofU16 h.blocks

def verify (h : Header) (expected : Tag) : Except HeaderError Unit :=
  if h.tag = expected ∧ h.magic = standardMagic then .ok ()
  else .error { expected, found := h.tag, magic := h.magic }

end Header

end SoundArchive
