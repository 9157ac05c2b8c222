import Mathlib.Order.Lattice
import Mathlib.Data.List.Sort
import SoundArchive.Ascending

/-! # Ascending lists have the members of their list, in strict order -/

namespace SoundArchive

namespace Ascending

/-! ## Runs of equal members -/

variable {α : Type} [BEq α] [LawfulBEq α]

theorem mem_loop {x a : α} {l acc : List α} :
    x ∈ List.eraseRepsBy.loop (· == ·) a l acc ↔ x ∈ acc ∨ x = a ∨ x ∈ l := by
  induction l generalizing a acc with
  | nil =>
    simp only [List.eraseRepsBy.loop, List.mem_reverse, List.mem_cons, List.not_mem_nil, or_false]
    tauto
  | cons b l ih =>
    rw [List.eraseRepsBy.loop]
    split
    · next h =>
      rw [ih, eq_of_beq h]
      simp
    · rw [ih]
      simp only [List.mem_cons]
      tauto

theorem mem_eraseReps {x : α} {l : List α} : x ∈ l.eraseReps ↔ x ∈ l := by
  cases l with
  | nil => rfl
  | cons a l =>
    rw [List.eraseReps, List.eraseRepsBy, mem_loop]
    simp

/-- The members taken so far lie below `a`, and `a` below what is left. -/
theorem loop_pairwise_lt [LinearOrder α] {a : α} {l acc : List α}
    (hacc : (a :: acc).Pairwise (· > ·)) (hl : (a :: l).Pairwise (· ≤ ·)) :
    (List.eraseRepsBy.loop (· == ·) a l acc).Pairwise (· < ·) := by
  induction l generalizing a acc with
  | nil =>
    rw [List.eraseRepsBy.loop, List.pairwise_reverse]
    exact hacc
  | cons b l ih =>
    obtain ⟨hab, hbl⟩ := List.pairwise_cons.1 hl
    rw [List.eraseRepsBy.loop]
    split
    · next h =>
      rw [eq_of_beq h] at hacc ⊢
      exact ih hacc hbl
    · next h =>
      have hlt : a < b := lt_of_le_of_ne (hab b List.mem_cons_self) (by simpa using h)
      refine ih (List.pairwise_cons.2 ⟨?_, hacc⟩) hbl
      intro x hx
      rcases List.mem_cons.1 hx with rfl | hx
      · exact hlt
      · exact ((List.pairwise_cons.1 hacc).1 x hx).trans hlt

theorem map_loop {β : Type} [BEq β] [LawfulBEq β] {f : α → β} (hf : f.Injective) (a : α)
    (l acc : List α) :
    (List.eraseRepsBy.loop (· == ·) a l acc).map f
      = List.eraseRepsBy.loop (· == ·) (f a) (l.map f) (acc.map f) := by
  induction l generalizing a acc with
  | nil => simp [List.eraseRepsBy.loop]
  | cons b l ih =>
    have hbeq : (f a == f b) = (a == b) := by
      rw [Bool.eq_iff_iff, beq_iff_eq, beq_iff_eq, hf.eq_iff]
    rw [List.map_cons, List.eraseRepsBy.loop, List.eraseRepsBy.loop, hbeq]
    split
    · exact ih a acc
    · exact ih b (a :: acc)

end Ascending

/-! ## The whole -/

@[simp] theorem mem_ascending {α : Type} [LE α] [DecidableLE α] [BEq α] [LawfulBEq α] {x : α}
    {l : List α} : x ∈ ascending l ↔ x ∈ l := by
  rw [ascending, Ascending.mem_eraseReps, List.mem_mergeSort]

theorem ascending_pairwise_lt (l : List Nat) : (ascending l).Pairwise (· < ·) := by
  have hsorted : (l.mergeSort (· ≤ ·)).Pairwise (fun a b => decide (a ≤ b) = true) := by
    apply List.pairwise_mergeSort
    · intro a b c hab hbc
      simp only [decide_eq_true_eq] at hab hbc ⊢
      exact Nat.le_trans hab hbc
    · intro a b
      simp only [Bool.or_eq_true, decide_eq_true_eq]
      exact Nat.le_total a b
  simp only [decide_eq_true_eq] at hsorted
  unfold ascending List.eraseReps
  cases hs : l.mergeSort (· ≤ ·) with
  | nil => exact List.Pairwise.nil
  | cons a rest =>
    rw [hs] at hsorted
    exact Ascending.loop_pairwise_lt (by simp) hsorted

theorem le_getElem_of_pairwise_lt {l : List Nat} (h : l.Pairwise (· < ·)) {i : Nat}
    (hi : i < l.length) : i ≤ l[i] := by
  induction i with
  | zero => exact Nat.zero_le _
  | succ i ih =>
    have hlt := List.pairwise_iff_getElem.1 h i (i + 1) (by omega) hi (by omega)
    have hle := ih (by omega)
    omega

/-- Nothing moves up when numbers move together. -/
theorem idxOf_ascending_le {l : List Nat} {n : Nat} (hn : n ∈ ascending l) :
    (ascending l).idxOf n ≤ n := by
  have hle := le_getElem_of_pairwise_lt (ascending_pairwise_lt l) (List.idxOf_lt_length_of_mem hn)
  rwa [List.getElem_idxOf] at hle

theorem nodup_ascending (l : List Nat) : (ascending l).Nodup :=
  (ascending_pairwise_lt l).imp Nat.ne_of_lt

theorem eq_range_of_pairwise_lt {l : List Nat} {k : Nat} (hl : l.Pairwise (· < ·))
    (h : ∀ n, n ∈ l ↔ n < k) : l = List.range k :=
  hl.eq_of_mem_iff List.pairwise_lt_range (by simp [h])

theorem idxOf?_range {k n : Nat} (h : k < n) : (List.range n).idxOf? k = some k := by
  rw [List.idxOf?_eq_some_iff]
  refine ⟨by simpa using h, by simp, fun j hj => ?_⟩
  rw [List.getElem_range]
  omega

theorem idxOf_range {k n : Nat} (h : k < n) : (List.range n).idxOf k = k := by
  rw [List.idxOf_eq_getD_idxOf?, idxOf?_range h, Option.getD_some]

/-- Numbers of other types are put in order as the naturals that they stand for. -/
theorem map_ascending {α β : Type} [LE α] [DecidableLE α] [BEq α] [LawfulBEq α] [LE β]
    [DecidableLE β] [BEq β] [LawfulBEq β] {f : α → β} (hf : f.Injective)
    (hle : ∀ a b, a ≤ b ↔ f a ≤ f b) (l : List α) :
    (ascending l).map f = ascending (l.map f) := by
  have hsort : (l.mergeSort (· ≤ ·)).map f = (l.map f).mergeSort (· ≤ ·) :=
    List.map_mergeSort fun a _ b _ => by simp [hle]
  unfold ascending List.eraseReps
  rw [← hsort]
  cases l.mergeSort (· ≤ ·) with
  | nil => rfl
  | cons a rest => exact Ascending.map_loop hf a rest []

end SoundArchive
