/-!
# Slots

Every category of an archive is a list of slots, numbered from 0 on, some of which are holes.
Entries refer to each other by slot numbers.
-/

namespace SoundArchive

abbrev Slots (α : Type) := List (Option α)

namespace Slots

variable {α β : Type}

/-- What is in slot `n`. Slots past the last are holes. -/
def entry? (slots : Slots α) (n : Nat) : Option α := slots[n]?.join

/-- The entries, without the holes. -/
def live (slots : Slots α) : List α := slots.filterMap id

def liveCount (slots : Slots α) : Nat := slots.live.length

def mapLive (f : α → β) (slots : Slots α) : Slots β := slots.map (Option.map f)

/-- Counts the entries from `n` on, and tells each its number. -/
def mapCounted (f : Nat → α → β) (n : Nat) : Slots α → Slots β
  | [] => []
  | none :: rest => none :: mapCounted f n rest
  | some a :: rest => some (f n a) :: mapCounted f (n + 1) rest

end Slots

end SoundArchive
