import SoundArchive.Archive.Slots

/-!
# Duplicates

Among entries that are equal for some purpose, the first is the leader of the others.
-/

namespace SoundArchive

/-- For every slot the slot of its leader, none for a hole. An entry without an equal one in
front of it leads itself. -/
abbrev Leaders := Array (Option Nat)

namespace Leaders

variable {α : Type}

/-- The leaders of slots from `n` on. The `firsts` lead themselves in front of these. -/
def leadersFrom (equal : α → α → Bool) (firsts : List (Nat × α)) (n : Nat) : Slots α → Slots Nat
  | [] => []
  | none :: rest => none :: leadersFrom equal firsts (n + 1) rest
  | some a :: rest =>
    match firsts.find? fun first => equal first.2 a with
    | some first => some first.1 :: leadersFrom equal firsts (n + 1) rest
    | none => some n :: leadersFrom equal (firsts ++ [(n, a)]) (n + 1) rest

def ofSlots (equal : α → α → Bool) (slots : Slots α) : Leaders :=
  (leadersFrom equal [] 0 slots).toArray

/-- The slot that stands for slot `n`. Holes, and slots past the last, stand for themselves. -/
def leader (leaders : Leaders) (n : Nat) : Nat := leaders[n]?.join.getD n

/-- The entries with another leader than themselves. -/
def duplicates (leaders : Leaders) : Nat :=
  leaders.toList.zipIdx.countP fun (leader, n) => leader.any (· ≠ n)

end Leaders

end SoundArchive
