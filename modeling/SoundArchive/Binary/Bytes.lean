/-!
# Bytes

Byte strings, the little-endian integers in them, and the alignment of blocks to four bytes.
A read names the offset it reads at and fails when a byte of it is missing.
-/

namespace SoundArchive

abbrev Bytes := Array UInt8

namespace Bytes

/-! ## Reading -/

def u16? (bytes : Bytes) (offset : Nat) : Option UInt16 := do
  let low ← bytes[offset]?
  let high ← bytes[offset + 1]?
  return low.toUInt16 ||| (high.toUInt16 <<< 8)

def u32? (bytes : Bytes) (offset : Nat) : Option UInt32 := do
  let low ← u16? bytes offset
  let high ← u16? bytes (offset + 2)
  return low.toUInt32 ||| (high.toUInt32 <<< 16)

/-- The `count` bytes from `start` on, if all of them are there. -/
def slice? (bytes : Bytes) (start count : Nat) : Option Bytes :=
  if count = 0 ∨ start + count ≤ bytes.size then some (bytes.extract start (start + count))
  else none

/-- The bytes from `start` up to `stop`, if all of them are there. -/
def range? (bytes : Bytes) (start stop : Nat) : Option Bytes :=
  if start ≤ stop ∧ stop ≤ bytes.size then some (bytes.extract start stop) else none

/-- The `count` words from `offset` on. Their room is checked before any is read. -/
def u32s? (bytes : Bytes) (offset count : Nat) : Option (List UInt32) :=
  if count = 0 ∨ offset + 4 * count ≤ bytes.size then
    (List.range count).mapM fun i => u32? bytes (offset + 4 * i)
  else none

/-! ## Writing -/

def ofU16 (value : UInt16) : Bytes := #[value.toUInt8, (value >>> 8).toUInt8]

def ofU32 (value : UInt32) : Bytes :=
  ofU16 value.toUInt16 ++ ofU16 (value >>> 16).toUInt16

def zeros (count : Nat) : Bytes := Array.replicate count 0

def concat (parts : List Bytes) : Bytes := parts.foldl (· ++ ·) #[]

def ofU16s (values : List UInt16) : Bytes := concat (values.map ofU16)

def ofU32s (values : List UInt32) : Bytes := concat (values.map ofU32)

end Bytes

/-! ## Alignment -/

/-- The next multiple of four at or above `n`. -/
def align4 (n : Nat) : Nat := (n + 3) / 4 * 4

theorem le_align4 (n : Nat) : n ≤ align4 n := by unfold align4; omega

theorem align4_mod (n : Nat) : align4 n % 4 = 0 := by unfold align4; omega

/-- The bytes, padded with zeros to a multiple of four. -/
def Bytes.padded (bytes : Bytes) : Bytes :=
  bytes ++ zeros (align4 bytes.size - bytes.size)

end SoundArchive
