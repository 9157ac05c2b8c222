/-!
# Lengths

The length of a sequence is a time in seconds, and whether the sequence then goes back or is
over.
-/

namespace SoundArchive

inductive LengthKind where
  | loop
  | finish
deriving DecidableEq

structure Length where
  seconds : Float
  kind : LengthKind

namespace Length

/-- A number with at least two digits. -/
def twoDigits (n : Nat) : String := if n < 10 then "0" ++ toString n else toString n

/-- Whole seconds, rounded up. Less than nothing counts as nothing. -/
def wholeSeconds (seconds : Float) : Nat :=
  (if seconds > 0 then seconds.ceil else 0).toUInt64.toNat

/-- Minutes and seconds, rounded up to whole seconds. -/
def format (seconds : Float) : String :=
  let total := wholeSeconds seconds
  twoDigits (total / 60) ++ ":" ++ twoDigits (total % 60)

end Length

end SoundArchive
