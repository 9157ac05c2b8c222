/-!
# Numbered collections

A collection that gives numbers to its members and may leave numbers out. It is kept as a list
in ascending order of the numbers, each of which occurs once, so that equal collections are
equal lists.
-/

namespace SoundArchive

structure Numbered (α : Type) where
  entries : List (Nat × α)
  ascending : entries.Pairwise (fun a b => a.1 < b.1)
deriving DecidableEq

namespace Numbered

variable {α : Type}

def empty : Numbered α := ⟨[], .nil⟩

def find? (m : Numbered α) (n : Nat) : Option α := m.entries.lookup n

def count (m : Numbered α) : Nat := m.entries.length

/-! ## From slots -/

/-- The members of `slots`, numbered from `n` on. -/
def numberFrom (n : Nat) : List (Option α) → List (Nat × α)
  | [] => []
  | none :: rest => numberFrom (n + 1) rest
  | some a :: rest => (n, a) :: numberFrom (n + 1) rest

theorem le_of_mem_numberFrom {n : Nat} {slots : List (Option α)} {e : Nat × α}
    (h : e ∈ numberFrom n slots) : n ≤ e.1 := by
  induction slots generalizing n with
  | nil => simp [numberFrom] at h
  | cons slot rest ih =>
    cases slot with
    | none => have := ih h; omega
    | some a =>
      rcases List.mem_cons.1 h with rfl | h
      · exact Nat.le_refl _
      · have := ih h; omega

theorem numberFrom_ascending (n : Nat) (slots : List (Option α)) :
    (numberFrom n slots).Pairwise (fun a b => a.1 < b.1) := by
  induction slots generalizing n with
  | nil => exact .nil
  | cons slot rest ih =>
    cases slot with
    | none => exact ih _
    | some a => exact .cons (fun _ h => le_of_mem_numberFrom h) (ih _)

/-- Numbers the slots from 0 on, empty ones included. -/
def ofSlots (slots : List (Option α)) : Numbered α :=
  ⟨numberFrom 0 slots, numberFrom_ascending 0 slots⟩

/-- The slots from `n` on, `count` of them, where `entries` holds the numbers from `n` on. -/
def slotsFrom (n : Nat) : (count : Nat) → (entries : List (Nat × α)) → List (Option α)
  | 0, _ => []
  | count + 1, [] => none :: slotsFrom (n + 1) count []
  | count + 1, (k, a) :: rest =>
    if k = n then some a :: slotsFrom (n + 1) count rest
    else none :: slotsFrom (n + 1) count ((k, a) :: rest)

def slots (m : Numbered α) (count : Nat) : List (Option α) := slotsFrom 0 count m.entries

/-! ## Insertion -/

def insertEntry (n : Nat) (a : α) : List (Nat × α) → List (Nat × α)
  | [] => [(n, a)]
  | (k, b) :: rest =>
    if n < k then (n, a) :: (k, b) :: rest
    else if n = k then (n, a) :: rest
    else (k, b) :: insertEntry n a rest

theorem mem_insertEntry {n : Nat} {a : α} {l : List (Nat × α)} {e : Nat × α}
    (h : e ∈ insertEntry n a l) : e = (n, a) ∨ e ∈ l := by
  induction l with
  | nil => simpa [insertEntry] using h
  | cons x rest ih =>
    obtain ⟨k, b⟩ := x
    simp only [insertEntry] at h
    split at h
    · simpa using h
    · split at h
      · rcases List.mem_cons.1 h with h | h
        · exact .inl h
        · exact .inr (List.mem_cons_of_mem _ h)
      · rcases List.mem_cons.1 h with rfl | h
        · exact .inr List.mem_cons_self
        · rcases ih h with h | h
          · exact .inl h
          · exact .inr (List.mem_cons_of_mem _ h)

theorem insertEntry_ascending (n : Nat) (a : α) {l : List (Nat × α)}
    (h : l.Pairwise (fun a b => a.1 < b.1)) :
    (insertEntry n a l).Pairwise (fun a b => a.1 < b.1) := by
  induction l with
  | nil => simp [insertEntry]
  | cons x rest ih =>
    obtain ⟨k, b⟩ := x
    obtain ⟨hk, hrest⟩ := List.pairwise_cons.1 h
    simp only [insertEntry]
    split
    · next hn =>
      refine .cons (fun e he => ?_) h
      rcases List.mem_cons.1 he with rfl | he
      · exact hn
      · exact Nat.lt_trans hn (hk e he)
    · split
      · next hn => exact .cons (fun e he => hn ▸ hk e he) hrest
      · next h1 h2 =>
        refine .cons (fun e he => ?_) (ih hrest)
        rcases mem_insertEntry he with rfl | he
        · simp only; omega
        · exact hk e he

/-- Gives the number `n` to `a`, in place of what had it. -/
def insert (m : Numbered α) (n : Nat) (a : α) : Numbered α :=
  ⟨insertEntry n a m.entries, insertEntry_ascending n a m.ascending⟩

/-- Of two entries with the same number the later one counts. -/
def ofList (entries : List (Nat × α)) : Numbered α :=
  entries.foldl (fun m e => m.insert e.1 e.2) empty

end Numbered

end SoundArchive
