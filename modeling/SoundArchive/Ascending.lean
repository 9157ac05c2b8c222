/-!
# Ascending lists

The members of a list in ascending order, each once.
-/

namespace SoundArchive

def ascending {α : Type} [LE α] [DecidableLE α] [BEq α] (l : List α) : List α :=
  (l.mergeSort (· ≤ ·)).eraseReps

end SoundArchive
