import Mathlib.Data.List.Pairwise
import SoundArchive.Proofs.Sequence.Reading
import SoundArchive.Sequence.Splice

/-!
# Where the recorded parts of bytecode lie

They do not overlap. So each of them lies in front of a changed operand or behind it as a whole,
and moves as a whole.
-/

namespace SoundArchive

open Bytecode

/-! ## Changing the length of an operand -/

/-- The `length` bytes at `operand` become `newLength` bytes. -/
structure Resize where
  operand : Nat
  length : Nat
  newLength : Nat

namespace Resize

/-- Where what was at `p` lies afterwards. -/
def place (r : Resize) (p : Nat) : Nat :=
  if p ≤ r.operand then p else p + r.newLength - r.length

/-- Not strictly inside the operand. -/
def Clear (r : Resize) (p : Nat) : Prop := p ≤ r.operand ∨ r.operand + r.length ≤ p

variable {r : Resize} {p q : Nat}

theorem place_of_le (h : p ≤ r.operand) : r.place p = p := if_pos h

theorem place_of_lt (h : r.operand < p) : r.place p = p + r.newLength - r.length :=
  if_neg (by omega)

theorem place_mono (hq : r.Clear q) (h : p ≤ q) : r.place p ≤ r.place q := by
  unfold place
  unfold Clear at hq
  split <;> split <;> omega

theorem place_le (p : Nat) : r.place p ≤ p + r.newLength := by
  unfold place
  split <;> omega

/-- What lies in front of the operand or behind it moves as a whole. -/
theorem place_add {k : Nat} (hlength : 0 < r.length)
    (h : p + k ≤ r.operand ∨ r.operand + r.length ≤ p) : r.place (p + k) = r.place p + k := by
  unfold place
  split <;> split <;> omega

/-- Offsets are words of 64 bits, so they move right as long as they fit. -/
theorem shifted_eq_place (hp : r.Clear p) (hfits : r.place p < 2 ^ 64) :
    Splice.shifted r.operand (r.newLength - r.length) p = r.place p := by
  unfold Splice.shifted Splice.moved
  unfold place at hfits ⊢
  unfold Clear at hp
  split
  · rw [if_neg (by omega)] at hfits ⊢
    omega
  · rw [if_pos (by omega)]

def apply (r : Resize) (code : Bytes) (bytes : Bytes) : Bytes :=
  code.extract 0 r.operand ++ bytes ++ code.extract (r.operand + r.length) code.size

variable {code bytes : Bytes}

theorem apply_at (h : r.operand ≤ code.size) : (r.apply code bytes).At r.operand bytes :=
  ⟨_, _, rfl, by simp [h]⟩

theorem size_apply (hbytes : bytes.size = r.newLength)
    (h : r.operand + r.length ≤ code.size) :
    (r.apply code bytes).size + r.length = code.size + r.newLength := by
  unfold apply
  simp only [Array.size_append, Array.size_extract, hbytes]
  omega

theorem apply_place (hbytes : bytes.size = r.newLength) (h : r.operand + r.length ≤ code.size)
    (hlength : 0 < r.length) (hp : p < r.operand ∨ r.operand + r.length ≤ p) :
    (r.apply code bytes)[r.place p]? = code[p]? := by
  have hfront : (code.extract 0 r.operand).size = r.operand := by simp; omega
  unfold apply
  rcases hp with hp | hp
  · rw [place_of_le (by omega), Array.append_assoc, Array.getElem?_append_left (by omega),
      Array.getElem?_extract, if_pos (by omega), Nat.zero_add]
  · have hsize : (code.extract 0 r.operand ++ bytes).size = r.operand + r.newLength := by
      rw [Array.size_append, hfront, hbytes]
    rw [place_of_lt (by omega), Array.getElem?_append_right (by omega), hsize,
      Array.getElem?_extract,
      show p + r.newLength - r.length - (r.operand + r.newLength)
        = p - (r.operand + r.length) by omega]
    split
    · rw [show r.operand + r.length + (p - (r.operand + r.length)) = p by omega]
    · rw [Array.getElem?_eq_none (by omega)]

theorem apply_copied (hbytes : bytes.size = r.newLength) (h : r.operand + r.length ≤ code.size)
    (hlength : 0 < r.length) (hpq : q ≤ r.operand ∨ r.operand + r.length ≤ p) :
    Copied code p q (r.apply code bytes) (r.place p) := by
  intro i hi
  rw [← place_add hlength (by omega)]
  exact apply_place hbytes h hlength (by omega)

end Resize

/-! ## Where the recorded parts lie -/

/-- The offsets from `start` up to `stop`. -/
structure Span where
  start : Nat
  stop : Nat

namespace Span

def Apart (s t : Span) : Prop := s.stop ≤ t.start ∨ t.stop ≤ s.start

instance : DecidableRel Apart := fun _ _ => inferInstanceAs (Decidable (_ ∨ _))

instance : Std.Symm Apart := ⟨fun _ _ => Or.symm⟩

def place (r : Resize) (s : Span) : Span := ⟨r.place s.start, r.place s.stop⟩

/-- What lies apart is moved apart. -/
theorem Apart.place {r : Resize} {s t : Span} (hs : r.Clear s.start) (ht : r.Clear t.start)
    (h : s.Apart t) : (s.place r).Apart (t.place r) := by
  rcases h with hle | hle
  · exact .inl (Resize.place_mono ht hle)
  · exact .inr (Resize.place_mono hs hle)

def ofBranch (operand : Nat) : Span := ⟨operand, operand + 3⟩

end Span

def PatchSite.span (site : PatchSite) : Span := ⟨site.command, site.operand + site.length⟩

/-- What a splice of `patch` into the site does to the length of its operand. -/
def PatchSite.resize (site : PatchSite) (patch : UInt32) : Resize :=
  ⟨site.operand, site.length, (encodeNumber patch).length⟩

namespace PatchScan

def spans (scan : PatchScan) : List Span :=
  scan.patches.map PatchSite.span ++ scan.branches.map Span.ofBranch

/-- The recorded parts lie in the bytecode without overlapping, the operands of the patch changes
hold the recorded patches, and no branch leads into the middle of one. -/
structure WellLaidOut (scan : PatchScan) (code : Bytes) : Prop where
  inside : ∀ s ∈ scan.spans, s.stop ≤ code.size
  apart : scan.spans.Pairwise Span.Apart
  ordered : ∀ s ∈ scan.patches, s.command ≤ s.operand
  reads : ∀ s ∈ scan.patches, readNumber code s.operand = .ok (s.patch, s.operand + s.length)
  targets : ∀ b ∈ scan.branches, ∀ t, readU24 code b = .ok (t, b + 3) →
    ∀ s ∈ scan.patches, t.toNat ≤ s.operand ∨ s.operand + s.length ≤ t.toNat

variable {code : Bytes} {scan : PatchScan} {n : Nat} {site : PatchSite} {patch : UInt32}

namespace WellLaidOut

theorem length_pos (h : scan.WellLaidOut code) (hsite : site ∈ scan.patches) :
    0 < site.length := by
  have := readNumber_lt_end (h.reads site hsite)
  omega

theorem site_inside (h : scan.WellLaidOut code) (hsite : site ∈ scan.patches) :
    site.operand + site.length ≤ code.size :=
  h.inside site.span (List.mem_append_left _ (List.mem_map_of_mem hsite))

theorem branch_inside (h : scan.WellLaidOut code) {b : Nat} (hb : b ∈ scan.branches) :
    b + 3 ≤ code.size :=
  h.inside (.ofBranch b) (List.mem_append_right _ (List.mem_map_of_mem hb))

theorem branches_apart (h : scan.WellLaidOut code) :
    scan.branches.Pairwise fun p q => p + 3 ≤ q ∨ q + 3 ≤ p := by
  have hbranches := (List.pairwise_append.1 h.apart).2.1
  rw [List.pairwise_map] at hbranches
  exact hbranches.imp id

theorem site_branch_apart (h : scan.WellLaidOut code) (hsite : site ∈ scan.patches)
    {b : Nat} (hb : b ∈ scan.branches) :
    site.operand + site.length ≤ b ∨ b + 3 ≤ site.command :=
  (List.pairwise_append.1 h.apart).2.2 _ (List.mem_map_of_mem hsite) _ (List.mem_map_of_mem hb)

theorem sites_apart (h : scan.WellLaidOut code) {m : Nat} {other : PatchSite}
    (hsite : scan.patches[n]? = some site) (hother : scan.patches[m]? = some other)
    (hne : m ≠ n) : other.span.Apart site.span := by
  have hsites := (List.pairwise_append.1 h.apart).1
  rw [List.pairwise_map, List.pairwise_iff_getElem] at hsites
  obtain ⟨hn, rfl⟩ := List.getElem?_eq_some_iff.1 hsite
  obtain ⟨hm, rfl⟩ := List.getElem?_eq_some_iff.1 hother
  rcases Nat.lt_or_gt_of_ne hne with hlt | hlt
  · exact hsites m n hm hn hlt
  · exact (hsites n m hn hm hlt).symm

theorem span_apart (h : scan.WellLaidOut code) (hsite : site ∈ scan.patches)
    {s : Span} (hs : s ∈ scan.spans) : s = site.span ∨ s.Apart site.span := by
  by_cases heq : s = site.span
  · exact .inl heq
  · have hspan : site.span ∈ scan.spans := List.mem_append_left _ (List.mem_map_of_mem hsite)
    exact .inr (h.apart.forall hs hspan heq)

theorem start_le_stop (h : scan.WellLaidOut code) {s : Span} (hs : s ∈ scan.spans) :
    s.start ≤ s.stop := by
  rcases List.mem_append.1 hs with hs | hs
  · obtain ⟨site, hsite, rfl⟩ := List.mem_map.1 hs
    have := h.ordered site hsite
    simp only [PatchSite.span]
    omega
  · obtain ⟨b, -, rfl⟩ := List.mem_map.1 hs
    simp [Span.ofBranch]

/-! ### After a change of length -/

/-- The ends of the recorded parts do not lie inside the operand of a site. -/
theorem clear (h : scan.WellLaidOut code) (hsite : site ∈ scan.patches) {s : Span}
    (hs : s ∈ scan.spans) :
    (site.resize patch).Clear s.start ∧ (site.resize patch).Clear s.stop := by
  have hordered := h.ordered site hsite
  have hle := h.start_le_stop hs
  simp only [Resize.Clear, PatchSite.resize]
  rcases h.span_apart hsite hs with rfl | hapart
  · simp only [PatchSite.span]
    omega
  · simp only [Span.Apart, PatchSite.span] at hapart
    omega

theorem clear_branch (h : scan.WellLaidOut code) (hsite : site ∈ scan.patches) {b : Nat}
    (hb : b ∈ scan.branches) : (site.resize patch).Clear b :=
  (h.clear hsite (List.mem_append_right _ (List.mem_map_of_mem hb))).1

theorem clear_operand (h : scan.WellLaidOut code)
    (hsite : scan.patches[n]? = some site) {m : Nat} {s : PatchSite}
    (hs : scan.patches[m]? = some s) : (site.resize patch).Clear s.operand := by
  have hordered := h.ordered s (List.mem_of_getElem? hs)
  have hordered' := h.ordered site (List.mem_of_getElem? hsite)
  by_cases hmn : m = n
  · subst hmn
    obtain rfl : s = site := Option.some.inj (hs.symm.trans hsite)
    exact .inl (Nat.le_refl _)
  · have hapart := h.sites_apart hsite hs hmn
    simp only [Span.Apart, PatchSite.span] at hapart
    simp only [Resize.Clear, PatchSite.resize]
    omega

/-- A part other than the changed site moves as a whole. -/
theorem place_stop (h : scan.WellLaidOut code) (hsite : site ∈ scan.patches) {p k : Nat}
    (hapart : p + k ≤ site.command ∨ site.operand + site.length ≤ p) :
    (site.resize patch).place (p + k) = (site.resize patch).place p + k := by
  have hordered := h.ordered site hsite
  apply Resize.place_add (h.length_pos hsite)
  simp only [PatchSite.resize]
  omega

theorem place_branch_end (h : scan.WellLaidOut code) (hsite : site ∈ scan.patches)
    {b : Nat} (hb : b ∈ scan.branches) :
    (site.resize patch).place (b + 3) = (site.resize patch).place b + 3 := by
  apply h.place_stop hsite
  have := h.site_branch_apart hsite hb
  omega

/-- The operand of another site moves as a whole. -/
theorem place_operand_end (h : scan.WellLaidOut code)
    (hsite : scan.patches[n]? = some site) {m : Nat} {s : PatchSite}
    (hs : scan.patches[m]? = some s) (hmn : m ≠ n) :
    (site.resize patch).place (s.operand + s.length)
      = (site.resize patch).place s.operand + s.length := by
  apply h.place_stop (List.mem_of_getElem? hsite)
  have hordered := h.ordered s (List.mem_of_getElem? hs)
  have hapart := h.sites_apart hsite hs hmn
  simp only [Span.Apart, PatchSite.span] at hapart
  omega

theorem place_le_size (h : scan.WellLaidOut code) (hsite : site ∈ scan.patches)
    (patch : UInt32) {p : Nat} (hp : p ≤ code.size) :
    (site.resize patch).place p + site.length ≤ code.size + (encodeNumber patch).length := by
  have hpos := h.length_pos hsite
  have hinside := h.site_inside hsite
  have hmono := Resize.place_mono (r := site.resize patch) (.inr hinside) hp
  rw [Resize.place_of_lt (p := code.size) (by simp only [PatchSite.resize]; omega)] at hmono
  simp only [PatchSite.resize] at hmono ⊢
  omega

/-- The branch operands still lie in the bytecode without overlapping. -/
theorem branches_placed (h : scan.WellLaidOut code) (hsite : site ∈ scan.patches)
    (patch : UInt32) :
    (∀ b ∈ scan.branches.map (site.resize patch).place,
      b + 3 + site.length ≤ code.size + (encodeNumber patch).length) ∧
    (scan.branches.map (site.resize patch).place).Pairwise
      fun p q => p + 3 ≤ q ∨ q + 3 ≤ p := by
  constructor
  · intro b' hb'
    obtain ⟨b, hb, rfl⟩ := List.mem_map.1 hb'
    rw [← h.place_branch_end hsite hb]
    exact h.place_le_size hsite patch (h.branch_inside hb)
  · rw [List.pairwise_map]
    refine h.branches_apart.imp_of_mem ?_
    intro b c hb hc hapart
    rw [← h.place_branch_end hsite hb, ← h.place_branch_end hsite hc]
    rcases hapart with hle | hle
    · exact .inl (Resize.place_mono (h.clear_branch hsite hc) hle)
    · exact .inr (Resize.place_mono (h.clear_branch hsite hb) hle)

/-- A byte outside the branch operands stays outside them. -/
theorem outside_placed (h : scan.WellLaidOut code) (hsite : site ∈ scan.patches)
    {p b : Nat} (hb : b ∈ scan.branches)
    (hp : p < site.operand ∨ site.operand + site.length ≤ p) (hout : p < b ∨ b + 3 ≤ p) :
    (site.resize patch).place p < (site.resize patch).place b ∨
      (site.resize patch).place b + 3 ≤ (site.resize patch).place p := by
  have hpos := h.length_pos hsite
  have hnext : (site.resize patch).place (p + 1) = (site.resize patch).place p + 1 :=
    Resize.place_add hpos (by simp only [PatchSite.resize]; omega)
  rcases hout with hlt | hle
  · have hmono : (site.resize patch).place (p + 1) ≤ (site.resize patch).place b :=
      Resize.place_mono (h.clear_branch hsite hb) hlt
    omega
  · have hclear : (site.resize patch).Clear p := by
      simp only [Resize.Clear, PatchSite.resize]
      omega
    have hmono := Resize.place_mono hclear hle
    rw [h.place_branch_end hsite hb] at hmono
    exact .inr hmono

theorem operand_outside_placed (h : scan.WellLaidOut code) (hsite : site ∈ scan.patches)
    {i b : Nat} (hb : b ∈ scan.branches) (hi : i < (encodeNumber patch).length) :
    site.operand + i < (site.resize patch).place b ∨
      (site.resize patch).place b + 3 ≤ site.operand + i := by
  have hordered := h.ordered site hsite
  have hpos := h.length_pos hsite
  rcases h.site_branch_apart hsite hb with hbehind | hfront
  · rw [Resize.place_of_lt (by simp only [PatchSite.resize]; omega)]
    simp only [PatchSite.resize]
    omega
  · rw [Resize.place_of_le (by simp only [PatchSite.resize]; omega)]
    omega

end WellLaidOut

end PatchScan

end SoundArchive
