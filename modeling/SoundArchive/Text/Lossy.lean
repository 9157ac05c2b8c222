/-!
# Showing bytes as text

Bytes that are meant to be text are read as UTF-8. Where they are not valid, the longest run
that could have begun a character becomes one replacement character.
-/

namespace SoundArchive.Text

def replacement : Char := Char.ofNat 0xFFFD

def isContinuation (b : UInt8) : Bool := 0x80 ≤ b && b ≤ 0xBF

/-- How many bytes follow the lead byte `b`, and the range that the first of them must lie in. -/
def leadForm (b : UInt8) : Option (Nat × UInt8 × UInt8) :=
  if 0xC2 ≤ b && b ≤ 0xDF then some (1, 0x80, 0xBF)
  else if b == 0xE0 then some (2, 0xA0, 0xBF)
  else if b == 0xED then some (2, 0x80, 0x9F)
  else if 0xE1 ≤ b && b ≤ 0xEF then some (2, 0x80, 0xBF)
  else if b == 0xF0 then some (3, 0x90, 0xBF)
  else if 0xF1 ≤ b && b ≤ 0xF3 then some (3, 0x80, 0xBF)
  else if b == 0xF4 then some (3, 0x80, 0x8F)
  else none

/-- The code bits of the lead byte of a character with `follow` bytes behind the lead. -/
def leadBits (b : UInt8) (follow : Nat) : Nat :=
  b.toNat % (1 <<< (6 - follow))

/-- The bytes behind a lead byte that belong to its character: at most `follow`, the first
between `low` and `high`. -/
def followers (rest : List UInt8) (follow : Nat) (low high : UInt8) : List UInt8 :=
  match rest with
  | [] => []
  | b :: rest =>
    if low ≤ b && b ≤ high then b :: (rest.take (follow - 1)).takeWhile isContinuation else []

/-- One character off the front of nonempty bytes, and the number of bytes it took beyond the
first. -/
def firstChar (b : UInt8) (rest : List UInt8) : Char × Nat :=
  if b < 0x80 then (Char.ofNat b.toNat, 0) else
    match leadForm b with
    | none => (replacement, 0)
    | some (follow, low, high) =>
      let found := followers rest follow low high
      if found.length = follow then
        (Char.ofNat (found.foldl (fun v c => v * 64 + c.toNat % 64) (leadBits b follow)), follow)
      else (replacement, found.length)

def lossyChars : List UInt8 → List Char
  | [] => []
  | b :: rest =>
    let (c, taken) := firstChar b rest
    c :: lossyChars (rest.drop taken)
termination_by bytes => bytes.length

def lossy (bytes : List UInt8) : String := String.ofList (lossyChars bytes)

end SoundArchive.Text
