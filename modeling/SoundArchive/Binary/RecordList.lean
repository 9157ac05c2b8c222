import SoundArchive.Binary.Bytes

/-!
# Lists of records

A list of records is stored as the number of its slots and an offset for each, 0 for one without
a record. The records themselves are stored elsewhere, one behind the other.
-/

namespace SoundArchive.RecordList

variable {α : Type}

def length (slots : List (Option α)) : Nat := 4 + 4 * slots.length

def recordsLength (size : α → Nat) (slots : List (Option α)) : Nat :=
  (slots.filterMap id).foldr (fun a total => size a + total) 0

/-- The offsets of the records, the first of them at `offset`. -/
def offsetsFrom (size : α → Nat) (offset : Nat) : List (Option α) → List UInt32
  | [] => []
  | none :: rest => 0 :: offsetsFrom size offset rest
  | some a :: rest => offset.toUInt32 :: offsetsFrom size (offset + size a) rest

/-- A list whose records are stored from `offset` on. -/
def encode (size : α → Nat) (offset : Nat) (slots : List (Option α)) : Bytes :=
  Bytes.ofU32 slots.length.toUInt32 ++ Bytes.ofU32s (offsetsFrom size offset slots)

/-- The offsets in the list at `start`. -/
def offsets? (bytes : Bytes) (start : Nat) : Option (List UInt32) := do
  let count ← bytes.u32? start
  bytes.u32s? (start + 4) count.toNat

end SoundArchive.RecordList
