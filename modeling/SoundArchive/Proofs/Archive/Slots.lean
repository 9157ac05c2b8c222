import SoundArchive.Archive.Slots
import Mathlib.Data.List.Perm.Subperm

/-! # Slots: their entries, their number, and what moves together -/

namespace SoundArchive

namespace Slots

variable {α β : Type} {slots : Slots α} {n : Nat} {x : α}

theorem entry?_eq_some : slots.entry? n = some x ↔ slots[n]? = some (some x) := by
  simp [Slots.entry?, Option.join_eq_some_iff]

theorem lt_of_entry?_eq_some (h : slots.entry? n = some x) : n < slots.length :=
  (List.getElem?_eq_some_iff.1 (entry?_eq_some.1 h)).1

theorem entry?_append_left {rest : Slots α} (hn : n < slots.length) :
    entry? (slots ++ rest) n = slots.entry? n := by
  rw [Slots.entry?, Slots.entry?, List.getElem?_append_left hn]

theorem entry?_append_right {rest : Slots α} (hn : slots.length ≤ n) :
    entry? (slots ++ rest) n = rest.entry? (n - slots.length) := by
  rw [Slots.entry?, Slots.entry?, List.getElem?_append_right hn]

theorem entry?_of_le (hn : slots.length ≤ n) : slots.entry? n = none := by
  rw [Slots.entry?, List.getElem?_eq_none hn]
  rfl

theorem ext_entry? {slots' : Slots α} (hlength : slots.length = slots'.length)
    (h : ∀ n, slots.entry? n = slots'.entry? n) : slots = slots' := by
  refine List.ext_getElem hlength fun n hn hn' => ?_
  have hslot := h n
  rwa [Slots.entry?, Slots.entry?, List.getElem?_eq_getElem hn, List.getElem?_eq_getElem hn',
    Option.join_some, Option.join_some] at hslot

theorem entry?_map_zipIdx (f : Nat → α → β) (slots : Slots α) (n : Nat) :
    entry? (slots.zipIdx.map fun x => x.1.map (f x.2)) n = (slots.entry? n).map (f n) := by
  simp only [Slots.entry?, List.getElem?_map, List.getElem?_zipIdx]
  rcases slots[n]? with _ | _ | _ <;> simp

theorem mem_live : x ∈ slots.live ↔ ∃ n, slots.entry? n = some x := by
  simp only [entry?_eq_some, ← List.mem_iff_getElem?]
  simp [live]

theorem entry?_mapLive (f : α → β) (slots : Slots α) (n : Nat) :
    entry? (slots.mapLive f) n = (slots.entry? n).map f := by
  simp only [Slots.entry?, mapLive, List.getElem?_map]
  rcases slots[n]? with _ | _ | _ <;> rfl

theorem live_mapLive (f : α → β) (slots : Slots α) :
    (slots.mapLive f).live = slots.live.map f := by
  simp [live, mapLive, List.filterMap_map, List.map_filterMap]

theorem live_append (slots rest : Slots α) : live (slots ++ rest) = slots.live ++ rest.live :=
  List.filterMap_append

theorem mapLive_append (f : α → β) (slots rest : Slots α) :
    mapLive f (slots ++ rest) = slots.mapLive f ++ rest.mapLive f := List.map_append

theorem liveCount_mapLive (f : α → β) (slots : Slots α) :
    (slots.mapLive f).liveCount = slots.liveCount := by
  rw [liveCount, live_mapLive, List.length_map]
  rfl

/-! ## Moving together -/

theorem getElem?_filterMap {kept : List Nat} {f : Nat → Option β}
    (hthere : ∀ n ∈ kept, (f n).isSome) (i : Nat) :
    (kept.filterMap f)[i]? = kept[i]?.bind f := by
  induction kept generalizing i with
  | nil => rfl
  | cons n rest ih =>
    obtain ⟨x, hx⟩ := Option.isSome_iff_exists.1 (hthere n List.mem_cons_self)
    rw [List.filterMap_cons_some hx]
    cases i with
    | zero => exact hx.symm
    | succ i => exact ih (fun m hm => hthere m (List.mem_cons_of_mem _ hm)) i

theorem length_filterMap_of_live {kept : List Nat}
    (hlive : ∀ n ∈ kept, (slots.entry? n).isSome) :
    (kept.filterMap slots.entry?).length = kept.length := by
  rw [List.length_filterMap_eq_countP, List.countP_eq_length]
  exact hlive

theorem entry?_map (f : α → β) (l : List α) (i : Nat) :
    entry? (l.map fun x => some (f x)) i = l[i]?.map f := by
  rw [Slots.entry?, List.getElem?_map]
  cases l[i]? <;> rfl

/-- Where the entries of live slots are once these have moved together. -/
theorem entry?_compact {kept : List Nat} (f : α → β)
    (hlive : ∀ n ∈ kept, (slots.entry? n).isSome) (i : Nat) :
    entry? ((kept.filterMap slots.entry?).map fun x => some (f x)) i
      = (kept[i]?.bind slots.entry?).map f := by
  rw [entry?_map, getElem?_filterMap hlive]

theorem liveCount_map_some (f : α → β) (l : List α) :
    liveCount (l.map fun x => some (f x)) = l.length := by
  simp [liveCount, live, List.filterMap_map]

theorem entry?_map_some (l : List α) (i : Nat) : entry? (l.map some) i = l[i]? := by
  simpa using entry?_map id l i

theorem live_map_some (l : List α) : live (l.map some) = l := by
  simp [live, List.filterMap_map]

theorem map_some_live (h : none ∉ slots) : slots.live.map some = slots := by
  induction slots with
  | nil => rfl
  | cons slot rest ih =>
    cases slot with
    | none => simp at h
    | some x => simpa [live] using ih fun hrest => h (List.mem_cons_of_mem _ hrest)

theorem entry?_of_lt (h : none ∉ slots) (hn : n < slots.length) : ∃ x, slots.entry? n = some x := by
  cases hslot : slots[n] with
  | none => exact absurd (hslot ▸ List.getElem_mem hn) h
  | some x => exact ⟨x, entry?_eq_some.2 (by rw [List.getElem?_eq_getElem hn, hslot])⟩

theorem live_eq_filterMap (slots : Slots α) :
    slots.live = (List.range slots.length).filterMap slots.entry? := by
  have hslots : (List.range slots.length).map slots.entry? = slots := by
    apply List.ext_getElem (by simp)
    intro i hi hi'
    simp [Slots.entry?, List.getElem?_eq_getElem hi']
  rw [live, ← hslots, List.filterMap_map]
  simp [hslots]

/-- There are no more different live slots than entries. -/
theorem length_le_liveCount {kept : List Nat} (hnodup : kept.Nodup)
    (hlive : ∀ n ∈ kept, (slots.entry? n).isSome) : kept.length ≤ slots.liveCount := by
  have hsub : kept ⊆ (List.range slots.length).filter fun n => (slots.entry? n).isSome := by
    intro n hn
    obtain ⟨x, hx⟩ := Option.isSome_iff_exists.1 (hlive n hn)
    exact List.mem_filter.2 ⟨List.mem_range.2 (Slots.lt_of_entry?_eq_some hx), hlive n hn⟩
  have hle := (hnodup.subperm hsub).length_le
  rwa [← List.countP_eq_length_filter, ← List.length_filterMap_eq_countP, ← live_eq_filterMap]
    at hle

/-! ## Entries that differ -/

/-- No two slots have entries of the same key. -/
def Differ {κ : Type} (key : α → κ) (slots : Slots α) : Prop :=
  ∀ m n x y, slots.entry? m = some x → slots.entry? n = some y → key x = key y → m = n

end Slots

end SoundArchive
