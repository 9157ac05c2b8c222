import SoundArchive.Ascending

/-!
# Selections

Of numbered things, some are used, and of these some are there to be kept. What is kept gets
new numbers in the same order.
-/

namespace SoundArchive

structure Selection where
  used : List Nat
  kept : List Nat
deriving DecidableEq

namespace Selection

/-- Selects what is used and `isThere`. -/
def ofUsed (isThere : Nat → Bool) (used : List Nat) : Selection :=
  let used := ascending used
  { used, kept := used.filter isThere }

/-- The new number of `n`. What was used but is not there moves past the end, so that it still
is not there. What was not used keeps its number. -/
def renumber (s : Selection) (n : Nat) : Nat := if n ∈ s.used then s.kept.idxOf n else n

end Selection

end SoundArchive
