import SoundArchive.Proofs.Archive.Slots
import SoundArchive.Strip.Duplicates

/-! # The leader of an entry is the first that is equal to it -/

namespace SoundArchive

namespace Leaders

open Slots

variable {α κ : Type} {equal : α → α → Bool} {key : α → κ} {front slots : Slots α}
  {firsts : List (Nat × α)} {n : Nat} {x : α}

/-! ## The scan -/

/-- Slot `l` has the first entry of its key. -/
def IsFirst (key : α → κ) (slots : Slots α) (l : Nat) (y : α) : Prop :=
  slots.entry? l = some y ∧ ∀ m z, slots.entry? m = some z → key z = key y → l ≤ m

/-- The `firsts` are those of the slots in front, and every entry there has its first among
them. -/
structure Firsts (key : α → κ) (front : Slots α) (firsts : List (Nat × α)) : Prop where
  first : ∀ f ∈ firsts, IsFirst key front f.1 f.2
  covered : ∀ m z, front.entry? m = some z → ∃ f ∈ firsts, key f.2 = key z

theorem entry?_concat {slot : Option α} {z : α} {m : Nat}
    (h : entry? (front ++ [slot]) m = some z) :
    front.entry? m = some z ∨ m = front.length ∧ slot = some z := by
  rcases Nat.lt_or_ge m front.length with hm | hm
  · rw [entry?_append_left hm] at h
    exact .inl h
  · rw [entry?_eq_some, List.getElem?_append_right hm] at h
    obtain ⟨hlt, hslot⟩ := List.getElem?_eq_some_iff.1 h
    simp only [List.length_singleton] at hlt
    have hm : m = front.length := by omega
    subst hm
    exact .inr ⟨rfl, by simpa using hslot⟩

theorem IsFirst.append {l : Nat} {y : α} (h : IsFirst key front l y) (rest : Slots α) :
    IsFirst key (front ++ rest) l y := by
  have hl := lt_of_entry?_eq_some h.1
  refine ⟨by rw [entry?_append_left hl, h.1], fun m z hm hz => ?_⟩
  rcases Nat.lt_or_ge m front.length with hlt | hge
  · rw [entry?_append_left hlt] at hm
    exact h.2 m z hm hz
  · omega

theorem Firsts.hole (h : Firsts key front firsts) : Firsts key (front ++ [none]) firsts := by
  refine ⟨fun f hf => (h.first f hf).append _, fun m z hm => ?_⟩
  rcases entry?_concat hm with hm | ⟨_, hz⟩
  · exact h.covered m z hm
  · cases hz

theorem Firsts.duplicate {f : Nat × α} (h : Firsts key front firsts) (hf : f ∈ firsts)
    (hx : key f.2 = key x) : Firsts key (front ++ [some x]) firsts := by
  refine ⟨fun f hf => (h.first f hf).append _, fun m z hm => ?_⟩
  rcases entry?_concat hm with hm | ⟨_, hz⟩
  · exact h.covered m z hm
  · cases hz
    exact ⟨f, hf, hx⟩

theorem Firsts.isFirst_of_new (h : Firsts key front firsts)
    (hnew : ∀ f ∈ firsts, key f.2 ≠ key x) :
    IsFirst key (front ++ [some x]) front.length x := by
  refine ⟨by simp [Slots.entry?], fun m z hm hz => ?_⟩
  rcases entry?_concat hm with hm | ⟨hm, _⟩
  · obtain ⟨f, hf, hkey⟩ := h.covered m z hm
    exact absurd (hkey.trans hz) (hnew f hf)
  · exact Nat.le_of_eq hm.symm

theorem Firsts.new (h : Firsts key front firsts) (hnew : ∀ f ∈ firsts, key f.2 ≠ key x) :
    Firsts key (front ++ [some x]) (firsts ++ [(front.length, x)]) := by
  refine ⟨fun f hf => ?_, fun m z hm => ?_⟩
  · rcases List.mem_append.1 hf with hf | hf
    · exact (h.first f hf).append _
    · obtain rfl := List.mem_singleton.1 hf
      exact h.isFirst_of_new hnew
  · rcases entry?_concat hm with hm | ⟨_, hz⟩
    · obtain ⟨f, hf, hkey⟩ := h.covered m z hm
      exact ⟨f, List.mem_append_left _ hf, hkey⟩
    · cases hz
      exact ⟨_, List.mem_append_right _ (List.mem_singleton_self _), rfl⟩

theorem leadersFrom_hole (h : slots.entry? n = none) (first : Nat) :
    entry? (leadersFrom equal firsts first slots) n = none := by
  induction slots generalizing first firsts n with
  | nil => rfl
  | cons slot rest ih =>
    cases n with
    | zero =>
      obtain rfl : slot = none := h
      rfl
    | succ n =>
      cases slot with
      | none => exact ih h _
      | some a =>
        unfold leadersFrom
        split
        · exact ih h _
        · exact ih h _

theorem leadersFrom_spec (hequal : ∀ x y, equal x y = true ↔ key x = key y)
    (h : Firsts key front firsts) (hn : slots[n]? = some (some x)) :
    ∃ l y, (leadersFrom equal firsts front.length slots)[n]? = some (some l) ∧
      IsFirst key (front ++ slots) l y ∧ key y = key x := by
  induction slots generalizing front firsts n with
  | nil => cases hn
  | cons slot rest ih =>
    have hbehind {firsts : List (Nat × α)} {n : Nat} (h : Firsts key (front ++ [slot]) firsts)
        (hn : rest[n]? = some (some x)) :
        ∃ l y, (leadersFrom equal firsts (front.length + 1) rest)[n]? = some (some l) ∧
          IsFirst key (front ++ slot :: rest) l y ∧ key y = key x := by
      have hrest := ih h hn
      rwa [List.length_append, List.length_singleton, List.append_assoc, List.singleton_append]
        at hrest
    cases slot with
    | none =>
      cases n with
      | zero => cases hn
      | succ n => exact hbehind h.hole hn
    | some a =>
      cases hfind : firsts.find? fun first => equal first.2 a with
      | some f =>
        have hfound : equal f.2 a = true := by simpa using List.find?_some hfind
        have hkey : key f.2 = key a := (hequal _ _).1 hfound
        have hf := List.mem_of_find?_eq_some hfind
        simp only [leadersFrom, hfind]
        cases n with
        | zero =>
          obtain rfl : a = x := by simpa using hn
          exact ⟨f.1, f.2, rfl, (h.first f hf).append _, hkey⟩
        | succ n => exact hbehind (h.duplicate hf hkey) hn
      | none =>
        have hnew : ∀ f ∈ firsts, key f.2 ≠ key a := by
          intro f hf hkey
          exact List.find?_eq_none.1 hfind f hf ((hequal _ _).2 hkey)
        simp only [leadersFrom, hfind]
        cases n with
        | zero =>
          obtain rfl : a = x := by simpa using hn
          refine ⟨front.length, a, rfl, ?_, rfl⟩
          have hfirst := (h.isFirst_of_new hnew).append rest
          rwa [List.append_assoc, List.singleton_append] at hfirst
        | succ n => exact hbehind (h.new hnew) hn

/-! ## Leaders -/

/-- For an entry the first entry of its key is recorded. -/
theorem getElem?_ofSlots (hequal : ∀ x y, equal x y = true ↔ key x = key y)
    (hn : slots.entry? n = some x) :
    ∃ l y, (ofSlots equal slots)[n]? = some (some l) ∧ IsFirst key slots l y ∧ key y = key x := by
  have hnone : Firsts key ([] : Slots α) [] := by
    refine ⟨fun f hf => (List.not_mem_nil hf).elim, fun m z hm => ?_⟩
    simp [Slots.entry?] at hm
  obtain ⟨l, y, hl, hfirst, hkey⟩ := leadersFrom_spec hequal hnone (entry?_eq_some.1 hn)
  exact ⟨l, y, by rwa [ofSlots, List.getElem?_toArray], hfirst, hkey⟩

theorem getElem?_ofSlots_of_hole (hn : slots.entry? n = none) :
    (ofSlots equal slots)[n]?.join = none := by
  rw [ofSlots, List.getElem?_toArray]
  exact leadersFrom_hole hn 0

theorem leader_eq_of_getElem? {leaders : Leaders} {l : Nat} (h : leaders[n]? = some (some l)) :
    leaders.leader n = l := by
  rw [leader, h]
  rfl

/-- The leader of an entry is the first entry of its key. -/
theorem leader_spec (hequal : ∀ x y, equal x y = true ↔ key x = key y)
    (hn : slots.entry? n = some x) :
    ∃ y, IsFirst key slots ((ofSlots equal slots).leader n) y ∧ key y = key x := by
  obtain ⟨l, y, hl, hfirst, hkey⟩ := getElem?_ofSlots hequal hn
  exact ⟨y, by rwa [leader_eq_of_getElem? hl], hkey⟩

theorem IsFirst.unique {l m : Nat} {y z : α} (hy : IsFirst key slots l y)
    (hz : IsFirst key slots m z) (h : key y = key z) : l = m :=
  Nat.le_antisymm (hy.2 m z hz.1 h.symm) (hz.2 l y hy.1 h)

theorem leader_eq_self_iff (hequal : ∀ x y, equal x y = true ↔ key x = key y)
    (hn : slots.entry? n = some x) :
    (ofSlots equal slots).leader n = n ↔ IsFirst key slots n x := by
  obtain ⟨y, hfirst, hkey⟩ := leader_spec hequal hn
  constructor
  · intro heq
    rw [heq] at hfirst
    obtain rfl := Option.some.inj (hn.symm.trans hfirst.1)
    exact hfirst
  · intro hself
    exact Nat.le_antisymm (hfirst.2 n x hn hkey.symm) (hself.2 _ y hfirst.1 hkey)

theorem leader_of_hole (hn : slots.entry? n = none) : (ofSlots equal slots).leader n = n := by
  rw [leader, getElem?_ofSlots_of_hole hn]
  rfl

end Leaders

end SoundArchive
