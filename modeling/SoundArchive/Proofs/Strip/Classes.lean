import Mathlib.Order.Bounds.Basic
import SoundArchive.Proofs.Strip.Leaders

/-!
# One leader for each class of equal entries

The search compares an entry with the leaders in front of it only. If equality is an equivalence on
the entries, that finds the first entry of every class, and one that is not an equivalence elsewhere
makes no difference.
-/

namespace SoundArchive.Leaders

open Slots

variable {α : Type} {equal equal' : α → α → Bool} {slots : Slots α}
  {l m n : Nat} {x y : α}

/-! ## Classes -/

/-- An equivalence on the entries of the slots, whatever it says of others. -/
structure IsEquivalenceOn (equal : α → α → Bool) (slots : Slots α) : Prop where
  refl : ∀ x ∈ slots.live, equal x x
  symm : ∀ x ∈ slots.live, ∀ y ∈ slots.live, equal x y → equal y x
  trans : ∀ x ∈ slots.live, ∀ y ∈ slots.live, ∀ z ∈ slots.live,
    equal x y → equal y z → equal x z

/-- The entries that are equal to `x`. -/
def classOf (equal : α → α → Bool) (slots : Slots α) (x : α) : Set α :=
  {y | y ∈ slots.live ∧ equal x y}

theorem IsEquivalenceOn.classOf_eq_iff (h : IsEquivalenceOn equal slots) (hx : x ∈ slots.live)
    (hy : y ∈ slots.live) : classOf equal slots x = classOf equal slots y ↔ equal x y := by
  constructor
  · intro heq
    have hmem : y ∈ classOf equal slots y := ⟨hy, h.refl y hy⟩
    rw [← heq] at hmem
    exact hmem.2
  · intro hxy
    ext z
    constructor
    · rintro ⟨hz, hxz⟩
      exact ⟨hz, h.trans y hy x hx z hz (h.symm x hx y hy hxy) hxz⟩
    · rintro ⟨hz, hyz⟩
      exact ⟨hz, h.trans x hx y hy z hz hxy hyz⟩

/-! ## What the search compares -/

theorem leadersFrom_congr {firsts : List (Nat × α)}
    (hfirsts : ∀ f ∈ firsts, ∀ y ∈ slots.live, equal f.2 y = equal' f.2 y)
    (hlive : ∀ x ∈ slots.live, ∀ y ∈ slots.live, equal x y = equal' x y) :
    leadersFrom equal firsts n slots = leadersFrom equal' firsts n slots := by
  -- An entry without a leader is a first for the rest, so the firsts vary in the induction.
  induction slots generalizing firsts n with
  | nil => rfl
  | cons slot rest ih =>
    cases slot with
    | none => exact congrArg (none :: ·) (ih hfirsts hlive)
    | some a =>
      have ha : a ∈ live (some a :: rest) := List.mem_cons_self
      have hrest : ∀ {z}, z ∈ live rest → z ∈ live (some a :: rest) := List.mem_cons_of_mem a
      have hfind : firsts.find? (fun f => equal f.2 a) = firsts.find? fun f => equal' f.2 a := by
        rw [← List.head?_filter, ← List.head?_filter,
          List.filter_congr fun f hf => hfirsts f hf a ha]
      have hrestFirsts : ∀ f ∈ firsts, ∀ y ∈ live rest, equal f.2 y = equal' f.2 y :=
        fun f hf y hy => hfirsts f hf y (hrest hy)
      have hrestLive : ∀ x ∈ live rest, ∀ y ∈ live rest, equal x y = equal' x y :=
        fun x hx y hy => hlive x (hrest hx) y (hrest hy)
      rw [leadersFrom, leadersFrom, hfind]
      split
      · exact congrArg _ (ih hrestFirsts hrestLive)
      · refine congrArg _ (ih (fun f hf y hy => ?_) hrestLive)
        rcases List.mem_append.1 hf with hf | hf
        · exact hrestFirsts f hf y hy
        · obtain rfl := List.mem_singleton.1 hf
          exact hlive a ha y (hrest hy)

/-- The leaders hang on nothing but which entries are equal. -/
theorem ofSlots_congr (h : ∀ x ∈ slots.live, ∀ y ∈ slots.live, equal x y = equal' x y) :
    ofSlots equal slots = ofSlots equal' slots :=
  congrArg List.toArray (leadersFrom_congr (fun _ hf => (List.not_mem_nil hf).elim) h)

theorem length_leadersFrom {firsts : List (Nat × α)} :
    (leadersFrom equal firsts n slots).length = slots.length := by
  induction slots generalizing firsts n with
  | nil => rfl
  | cons slot rest ih =>
    cases slot with
    | none => exact congrArg (· + 1) ih
    | some a =>
      rw [leadersFrom]
      split
      · exact congrArg (· + 1) ih
      · exact congrArg (· + 1) ih

/-! ## Leaders of classes -/

namespace IsEquivalenceOn

variable (h : IsEquivalenceOn equal slots)
include h

/-- For an entry the first of its class is recorded. -/
theorem getElem?_ofSlots (hn : slots.entry? n = some x) :
    ∃ l y, (ofSlots equal slots)[n]? = some (some l) ∧
      IsFirst (classOf equal slots) slots l y ∧ classOf equal slots y = classOf equal slots x := by
  classical
  -- Entries are equal if and only if their classes are, and for keys the leaders are known.
  have hcongr : ofSlots equal slots
      = ofSlots (fun x y => decide (classOf equal slots x = classOf equal slots y)) slots :=
    ofSlots_congr fun x hx y hy => by
      rw [Bool.eq_iff_iff, decide_eq_true_iff]
      exact (h.classOf_eq_iff hx hy).symm
  rw [hcongr]
  exact Leaders.getElem?_ofSlots (fun _ _ => decide_eq_true_iff) hn

theorem isLeast_of_isFirst (hn : slots.entry? n = some x)
    (hfirst : IsFirst (classOf equal slots) slots l y)
    (hclass : classOf equal slots y = classOf equal slots x) :
    IsLeast {m | ∃ z, slots.entry? m = some z ∧ equal z x} l := by
  have hx : x ∈ slots.live := mem_live.2 ⟨n, hn⟩
  refine ⟨⟨y, hfirst.1, (h.classOf_eq_iff (mem_live.2 ⟨l, hfirst.1⟩) hx).1 hclass⟩, ?_⟩
  rintro m ⟨z, hz, hequal⟩
  exact hfirst.2 m z hz (((h.classOf_eq_iff (mem_live.2 ⟨m, hz⟩) hx).2 hequal).trans hclass.symm)

theorem leader_eq_iff (hm : slots.entry? m = some x) (hn : slots.entry? n = some y) :
    (ofSlots equal slots).leader m = (ofSlots equal slots).leader n ↔ equal x y := by
  obtain ⟨k, z, hk, hfirst, hclass⟩ := h.getElem?_ofSlots hm
  obtain ⟨l, w, hl, hfirst', hclass'⟩ := h.getElem?_ofSlots hn
  rw [leader_eq_of_getElem? hk, leader_eq_of_getElem? hl,
    ← h.classOf_eq_iff (mem_live.2 ⟨m, hm⟩) (mem_live.2 ⟨n, hn⟩), ← hclass, ← hclass']
  constructor
  · rintro rfl
    rw [Option.some.inj (hfirst.1.symm.trans hfirst'.1)]
  · exact hfirst.unique hfirst'

theorem getElem?_leader {l : Nat} (hl : (ofSlots equal slots)[n]? = some (some l)) :
    (ofSlots equal slots)[l]? = some (some l) := by
  cases hn : slots.entry? n with
  | none =>
    have hhole : (ofSlots equal slots)[n]?.join = none := getElem?_ofSlots_of_hole hn
    rw [hl] at hhole
    cases hhole
  | some x =>
    obtain ⟨k, y, hk, hfirst, -⟩ := h.getElem?_ofSlots hn
    obtain rfl : l = k := Option.some.inj (Option.some.inj (hl.symm.trans hk))
    obtain ⟨j, z, hj, hfirst', hclass⟩ := h.getElem?_ofSlots hfirst.1
    rwa [hfirst'.unique hfirst hclass] at hj

theorem leader_leader (n : Nat) : (ofSlots equal slots).leader ((ofSlots equal slots).leader n)
    = (ofSlots equal slots).leader n := by
  cases hn : slots.entry? n with
  | none => rw [leader_of_hole hn, leader_of_hole hn]
  | some x =>
    obtain ⟨l, -, hl, -⟩ := h.getElem?_ofSlots hn
    rw [leader_eq_of_getElem? hl, leader_eq_of_getElem? (h.getElem?_leader hl)]

end IsEquivalenceOn

/-- Every entry is led by the first that is equal to it, and nothing is recorded for a hole. So
leaders lead themselves, two entries have one leader if and only if they are equal, and whatever a
number leads to leads to itself. -/
theorem ofSlots_canonical (h : IsEquivalenceOn equal slots) :
    (ofSlots equal slots).size = slots.length ∧
    (∀ n, (ofSlots equal slots)[n]?.join = none ↔ slots.entry? n = none) ∧
    (∀ n x, slots.entry? n = some x → ∃ l ≤ n, (ofSlots equal slots)[n]? = some (some l) ∧
      IsLeast {m | ∃ y, slots.entry? m = some y ∧ equal y x} l) ∧
    (∀ n l : Nat, (ofSlots equal slots)[n]? = some (some l) →
      (ofSlots equal slots)[l]? = some (some l)) ∧
    (∀ m n x y, slots.entry? m = some x → slots.entry? n = some y →
      ((ofSlots equal slots).leader m = (ofSlots equal slots).leader n ↔ equal x y)) ∧
    (∀ n, (ofSlots equal slots).leader ((ofSlots equal slots).leader n)
      = (ofSlots equal slots).leader n) ∧
    ∀ n, slots.entry? n = none → (ofSlots equal slots).leader n = n := by
  refine ⟨?_, fun n => ⟨fun hnone => ?_, getElem?_ofSlots_of_hole⟩, fun n x hn => ?_,
    fun n l hl => h.getElem?_leader hl, fun m n x y hm hn => h.leader_eq_iff hm hn,
    h.leader_leader, fun n hn => leader_of_hole hn⟩
  · rw [ofSlots, List.size_toArray, length_leadersFrom]
  · cases hn : slots.entry? n with
    | none => rfl
    | some x =>
      obtain ⟨l, -, hl, -⟩ := h.getElem?_ofSlots hn
      rw [hl] at hnone
      cases hnone
  · obtain ⟨l, y, hl, hfirst, hclass⟩ := h.getElem?_ofSlots hn
    exact ⟨l, hfirst.2 n x hn hclass.symm, hl, h.isLeast_of_isFirst hn hfirst hclass⟩

/-- Numbers up to 9 with the same remainder. The relation is no equivalence on other numbers. -/
theorem ofSlots_canonical_of_remainders :
    let equal : Nat → Nat → Bool := fun x y => x % 3 == y % 3 && x ≤ 9
    let slots : Slots Nat := [some 4, none, some 5, some 7, some 2, some 1]
    IsEquivalenceOn equal slots ∧ ¬ equal 10 10 ∧
      ofSlots equal slots = #[some 0, none, some 2, some 0, some 2, some 0] ∧
      slots.entry? 5 = some 1 ∧ IsLeast {m | ∃ y, slots.entry? m = some y ∧ equal y 1} 0 ∧
      (ofSlots equal slots)[5]? = some (some 0) ∧ (ofSlots equal slots)[0]? = some (some 0) ∧
      slots.entry? 3 = some 7 ∧
      ((ofSlots equal slots).leader 3 = (ofSlots equal slots).leader 5 ↔ equal 7 1) ∧
      slots.entry? 8 = none ∧ (ofSlots equal slots).leader 8 = 8 := by
  intro equal slots
  have h : IsEquivalenceOn equal slots := ⟨by decide, by decide, by decide⟩
  obtain ⟨-, -, hleast, hown, hsame, -, hhole⟩ := ofSlots_canonical h
  have hfive : (ofSlots equal slots)[5]? = some (some 0) := by decide
  obtain ⟨l, -, hl, hl'⟩ := hleast 5 1 rfl
  obtain rfl : 0 = l := Option.some.inj (Option.some.inj (hfive.symm.trans hl))
  exact ⟨h, by decide, by decide, rfl, hl', hfive, hown 5 0 hfive, rfl, hsame 3 5 7 1 rfl rfl, rfl,
    hhole 8 rfl⟩

end SoundArchive.Leaders
