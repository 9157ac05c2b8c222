import SoundArchive.Collect.Selection
import SoundArchive.Proofs.Archive.Slots
import SoundArchive.Proofs.Ascending

/-! # What is selected is found again at its new number -/

namespace SoundArchive

namespace Selection

variable {α : Type} {isThere : Nat → Bool} {used : List Nat} {n bound : Nat}

theorem mem_used : n ∈ (ofUsed isThere used).used ↔ n ∈ used := mem_ascending

theorem mem_kept : n ∈ (ofUsed isThere used).kept ↔ n ∈ used ∧ isThere n := by
  simp [ofUsed]

theorem renumber_of_used (hn : n ∈ used) :
    (ofUsed isThere used).renumber n = (ofUsed isThere used).kept.idxOf n :=
  if_pos (mem_used.2 hn)

/-- What is there is kept at its new number, and what is not is not there at its new one. -/
theorem getElem?_renumber (hn : n ∈ used) :
    (ofUsed isThere used).kept[(ofUsed isThere used).renumber n]?
      = if isThere n then some n else none := by
  rw [renumber_of_used hn]
  split
  · next hthere => exact List.getElem?_idxOf (mem_kept.2 ⟨hn, hthere⟩)
  · next hthere =>
    have hkept : n ∉ (ofUsed isThere used).kept := fun h => hthere (mem_kept.1 h).2
    rw [List.idxOf_eq_length hkept]
    exact List.getElem?_eq_none (Nat.le_refl _)

theorem length_le_of_nodup {l : List Nat} (hnodup : l.Nodup) (hlt : ∀ m ∈ l, m < bound) :
    l.length ≤ bound := by
  have hsub : l ⊆ List.range bound := fun m hm => List.mem_range.2 (hlt m hm)
  simpa using (hnodup.subperm hsub).length_le

theorem renumber_lt (isThere : Nat → Bool) (hused : ∀ m ∈ used, m < bound) (hn : n ∈ used) :
    (ofUsed isThere used).renumber n < bound := by
  have hnodup : (ofUsed isThere used).kept.Nodup := (nodup_ascending used).filter _
  have hlt : ∀ m ∈ (ofUsed isThere used).kept, m < bound := fun m hm => hused m (mem_kept.1 hm).1
  rw [renumber_of_used hn]
  by_cases hkept : n ∈ (ofUsed isThere used).kept
  · exact Nat.lt_of_lt_of_le (List.idxOf_lt_length_of_mem hkept) (length_le_of_nodup hnodup hlt)
  · rw [List.idxOf_eq_length hkept]
    refine length_le_of_nodup (List.nodup_cons.2 ⟨hkept, hnodup⟩) fun m hm => ?_
    rcases List.mem_cons.1 hm with rfl | hm
    · exact hused m hn
    · exact hlt m hm

/-- Of things that were taken along, each is found at its new number. -/
theorem getElem?_filterMap_renumber (isThere : Nat → Bool) {f : Nat → Option α}
    (hthere : ∀ m, isThere m → (f m).isSome) (hn : n ∈ used) :
    ((ofUsed isThere used).kept.filterMap f)[(ofUsed isThere used).renumber n]?
      = if isThere n then f n else none := by
  rw [Slots.getElem?_filterMap fun m hm => hthere m (mem_kept.1 hm).2, getElem?_renumber hn]
  split <;> rfl

/-! ## Selecting again -/

/-- All that is there is used, and what is used and not there is right behind. This is so once
numbers have moved together. -/
structure Settled (isThere : Nat → Bool) (used : List Nat) (bound : Nat) : Prop where
  isThere_iff : ∀ n, isThere n = true ↔ n < bound
  used_of_lt : ∀ n < bound, n ∈ used
  le_of_used : ∀ n ∈ used, n ≤ bound

theorem Settled.kept (h : Settled isThere used bound) :
    (ofUsed isThere used).kept = List.range bound := by
  refine eq_range_of_pairwise_lt ((ascending_pairwise_lt used).filter _) fun n => ?_
  rw [mem_kept, h.isThere_iff]
  exact ⟨And.right, fun hn => ⟨h.used_of_lt n hn, hn⟩⟩

/-- Every number stays. -/
theorem Settled.renumber (h : Settled isThere used bound) (n : Nat) :
    (ofUsed isThere used).renumber n = n := by
  by_cases hn : n ∈ used
  · rw [renumber_of_used hn, h.kept]
    rcases Nat.lt_or_eq_of_le (h.le_of_used n hn) with hlt | rfl
    · exact idxOf_range hlt
    · rw [List.idxOf_eq_length (by simp), List.length_range]
  · exact if_neg (mt mem_used.1 hn)

theorem renumber_le_length (hn : n ∈ used) :
    (ofUsed isThere used).renumber n ≤ (ofUsed isThere used).kept.length := by
  rw [renumber_of_used hn]
  exact List.idxOf_le_length

/-- What is kept moves together, so no number goes up. -/
theorem renumber_le_self (hn : n ∈ (ofUsed isThere used).kept) :
    (ofUsed isThere used).renumber n ≤ n := by
  rw [renumber_of_used (mem_kept.1 hn).1]
  have hsorted : (ofUsed isThere used).kept.Pairwise (· < ·) :=
    (ascending_pairwise_lt used).filter _
  have hle := le_getElem_of_pairwise_lt hsorted (List.idxOf_lt_length_of_mem hn)
  rwa [List.getElem_idxOf] at hle

/-- New numbers are settled, if the things that were kept are there under them. -/
theorem settled_renumber {isThere' : Nat → Bool} {used' : List Nat}
    (hthere : ∀ n, isThere' n = true ↔ n < (ofUsed isThere used).kept.length)
    (hkept : ∀ n ∈ (ofUsed isThere used).kept, (ofUsed isThere used).renumber n ∈ used')
    (hle : ∀ n ∈ used', n ≤ (ofUsed isThere used).kept.length) :
    Settled isThere' used' (ofUsed isThere used).kept.length where
  isThere_iff := hthere
  used_of_lt n hn := by
    have hmem := List.getElem_mem hn
    have hnodup : (ofUsed isThere used).kept.Nodup := (nodup_ascending used).filter _
    have hnew := hkept _ hmem
    rwa [renumber_of_used (mem_kept.1 hmem).1, hnodup.idxOf_getElem n hn] at hnew
  le_of_used := hle

end Selection

end SoundArchive
