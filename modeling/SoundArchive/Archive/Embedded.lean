import SoundArchive.Archive.Decode

/-!
# Archives inside an image

The image of a game holds archives among other data. They are found by the bytes that all of
them begin with, and cut out by the size in their header.
-/

namespace SoundArchive

namespace Archive

def signature : Bytes := tag.toArray ++ Header.magicBytes

def hasSignature (image : Bytes) (p : Nat) : Bool :=
  image[p]? == signature[0]? && image.extract p (p + signature.size) == signature

/-- The bytes at `p` that their header says are an archive. -/
def declared? (image : Bytes) (p : Nat) : Option Bytes := do
  let size ← image.u32? (p + signature.size)
  image.range? p (p + size.toNat)

def embeddedAt? (image : Bytes) (imageId : String) (policy : DecodePolicy) (p found : Nat) :
    Option (Archive × Nat) :=
  if hasSignature image p then
    match declared? image p with
    | none => none
    | some data =>
      match decode data (imageId ++ "#" ++ toString found) policy with
      | .error _ => none
      | .ok archive => some (archive, data.size)
  else none

/-- The archives from `p` on, `found` of which are in front. The search goes on behind an
archive, or right behind the start of what is none. -/
def embeddedFrom (image : Bytes) (imageId : String) (policy : DecodePolicy) (p found : Nat) :
    List Archive :=
  if p < image.size then
    match embeddedAt? image imageId policy p found with
    | none => embeddedFrom image imageId policy (p + 1) found
    | some (archive, size) =>
      archive :: embeddedFrom image imageId policy (p + max size 1) (found + 1)
  else []
termination_by image.size - p

/-- All archives in an image. They are told apart by their number. -/
def embedded (image : Bytes) (imageId : String) (policy : DecodePolicy) : List Archive :=
  embeddedFrom image imageId policy 0 0

end Archive

end SoundArchive
