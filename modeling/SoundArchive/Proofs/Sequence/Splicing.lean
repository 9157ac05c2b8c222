import Mathlib.Logic.Relation
import SoundArchive.Proofs.Sequence.Layout
import SoundArchive.Proofs.Sequence.Retargeting

/-! # A splice relocates what lies behind the operand, and changes nothing else -/

namespace SoundArchive

open Bytecode

namespace PatchScan

/-- Bytecode and scan after `patch` replaced the operand of `site`, which is the site `n`. -/
structure Relocated (n : Nat) (site : PatchSite) (patch : UInt32) (code : Bytes)
    (scan : PatchScan) (code' : Bytes) (scan' : PatchScan) : Prop where
  size : code'.size + site.length = code.size + (encodeNumber patch).length
  operand : code'.At site.operand (encodeNumber patch).toArray
  /-- All other bytes are there in the same order. -/
  others : ∀ p < code.size, (p < site.operand ∨ site.operand + site.length ≤ p) →
    (∀ b ∈ scan.branches, p < b ∨ b + 3 ≤ p) → code'[(site.resize patch).place p]? = code[p]?
  branches : scan'.branches = scan.branches.map (site.resize patch).place
  targets : ∀ b ∈ scan.branches, ∃ t t', readU24 code b = .ok (t, b + 3) ∧
    readU24 code' ((site.resize patch).place b) = .ok (t', (site.resize patch).place b + 3) ∧
      t'.toNat = (site.resize patch).place t.toNat
  patches : ∀ m, scan'.patches[m]? = scan.patches[m]?.map fun s =>
    if m = n then { s with length := (encodeNumber patch).length, patch }
    else { s with
      command := (site.resize patch).place s.command
      operand := (site.resize patch).place s.operand }
  isDynamic : scan'.isDynamic = scan.isDynamic

/-! ## One splice -/

section Step

variable {code code' : Bytes} {scan scan' : PatchScan} {n : Nat} {site : PatchSite}
  {patch : UInt32}

theorem splice_of_site (hsite : scan.patches[n]? = some site)
    (hsplice : splice code scan n patch = ((code', scan'), .ok ())) :
    scan' = scan.respliced n site.operand ((encodeNumber patch).length - site.length)
        (encodeNumber patch).length patch ∧
      (((encodeNumber patch).length = site.length ∧
          code' = (site.resize patch).apply code (encodeNumber patch).toArray) ∨
        Splice.retarget site.operand ((encodeNumber patch).length - site.length)
          ((site.resize patch).apply code (encodeNumber patch).toArray) scan'.branches
            = (code', .ok ())) := by
  unfold splice at hsplice
  rw [hsite] at hsplice
  simp only [List.size_toArray] at hsplice
  split at hsplice
  · cases hsplice
  split at hsplice
  · next hdelta =>
    cases hsplice
    exact ⟨rfl, .inl ⟨by omega, rfl⟩⟩
  · next hdelta =>
    generalize hret : Splice.retarget _ _ _ _ = state at hsplice
    obtain ⟨retargeted, result⟩ := state
    cases hsplice
    exact ⟨rfl, .inr hret⟩

theorem WellLaidOut.branches_respliced (h : scan.WellLaidOut code) (hsite : site ∈ scan.patches)
    (hsize : code.size + (encodeNumber patch).length < 2 ^ 64 + site.length) :
    scan.branches.map (Splice.shifted site.operand ((encodeNumber patch).length - site.length))
      = scan.branches.map (site.resize patch).place := by
  apply List.map_congr_left
  intro b hb
  refine Resize.shifted_eq_place (h.clear_branch hsite hb) ?_
  have hinside := h.branch_inside hb
  have := h.place_le_size hsite patch (show b ≤ code.size by omega)
  omega

theorem WellLaidOut.size_resized (h : scan.WellLaidOut code) (hsite : site ∈ scan.patches)
    (patch : UInt32) :
    ((site.resize patch).apply code (encodeNumber patch).toArray).size + site.length
      = code.size + (encodeNumber patch).length :=
  Resize.size_apply rfl (h.site_inside hsite)

theorem WellLaidOut.size_of_splice (h : scan.WellLaidOut code)
    (hsite : scan.patches[n]? = some site)
    (hsplice : splice code scan n patch = ((code', scan'), .ok ())) :
    code'.size + site.length = code.size + (encodeNumber patch).length := by
  rw [← h.size_resized (List.mem_of_getElem? hsite) patch]
  obtain ⟨-, ⟨-, rfl⟩ | hretarget⟩ := splice_of_site hsite hsplice
  · rfl
  · have hsame := Splice.size_retarget site.operand ((encodeNumber patch).length - site.length)
      ((site.resize patch).apply code (encodeNumber patch).toArray) scan'.branches
    rw [hretarget] at hsame
    exact congrArg (· + site.length) hsame

theorem WellLaidOut.retargeted (h : scan.WellLaidOut code) (hsite : scan.patches[n]? = some site)
    (hsize : code'.size < 2 ^ 64)
    (hsplice : splice code scan n patch = ((code', scan'), .ok ())) :
    scan'.branches = scan.branches.map (site.resize patch).place ∧
    Splice.Retargeted site.operand ((encodeNumber patch).length - site.length)
      scan'.branches ((site.resize patch).apply code (encodeNumber patch).toArray) code' := by
  have hmem := List.mem_of_getElem? hsite
  have hsizes := h.size_resized hmem patch
  have hsizes' := h.size_of_splice hsite hsplice
  obtain ⟨hinside, hapart⟩ := h.branches_placed hmem patch
  obtain ⟨hscan, hcode⟩ := splice_of_site hsite hsplice
  have hbranches : scan'.branches = scan.branches.map (site.resize patch).place := by
    rw [hscan]
    exact h.branches_respliced hmem (by omega)
  refine ⟨hbranches, ?_⟩
  rcases hcode with ⟨hlength, rfl⟩ | hretarget
  · rw [hlength, Int.sub_self]
    exact Splice.Retargeted.of_zero ..
  · rw [hbranches] at hretarget ⊢
    refine Splice.retargeted_of_ok ?_ hapart hretarget
    intro b hb
    have := hinside b hb
    omega

theorem WellLaidOut.shiftedSite_eq (h : scan.WellLaidOut code)
    (hsite : scan.patches[n]? = some site) {m : Nat} {s : PatchSite}
    (hs : scan.patches[m]? = some s)
    (hsize : code.size + (encodeNumber patch).length < 2 ^ 64 + site.length) :
    Splice.shiftedSite site.operand ((encodeNumber patch).length - site.length) s
      = { s with
          command := (site.resize patch).place s.command
          operand := (site.resize patch).place s.operand } := by
  have hmem := List.mem_of_getElem? hsite
  have hmem' := List.mem_of_getElem? hs
  have hspan : s.span ∈ scan.spans := List.mem_append_left _ (List.mem_map_of_mem hmem')
  have hordered := h.ordered s hmem'
  have hinside := h.site_inside hmem'
  have hcommand := h.place_le_size hmem patch (show s.command ≤ code.size by omega)
  have hoperand := h.place_le_size hmem patch (show s.operand ≤ code.size by omega)
  have hc : Splice.shifted site.operand ((encodeNumber patch).length - site.length) s.command
      = (site.resize patch).place s.command :=
    Resize.shifted_eq_place (p := s.command) (h.clear hmem hspan).1 (by omega)
  have ho : Splice.shifted site.operand ((encodeNumber patch).length - site.length) s.operand
      = (site.resize patch).place s.operand :=
    Resize.shifted_eq_place (h.clear_operand hsite hs) (by omega)
  rw [Splice.shiftedSite, hc, ho]

theorem WellLaidOut.target_placed (h : scan.WellLaidOut code)
    (hsite : scan.patches[n]? = some site) (hpatch : patch.toNat < 2 ^ 28)
    (hsize : code'.size < 2 ^ 64) (hsplice : splice code scan n patch = ((code', scan'), .ok ()))
    {b : Nat} (hb : b ∈ scan.branches) :
    ∃ t t', readU24 code b = .ok (t, b + 3) ∧
      readU24 code' ((site.resize patch).place b) = .ok (t', (site.resize patch).place b + 3) ∧
        t'.toNat = (site.resize patch).place t.toNat := by
  have hmem := List.mem_of_getElem? hsite
  obtain ⟨hbranches, hret⟩ := h.retargeted hsite hsize hsplice
  obtain ⟨t, ht⟩ := readU24_of_le (h.branch_inside hb)
  have hapart : b + 3 ≤ site.operand ∨ site.operand + site.length ≤ b := by
    have := h.site_branch_apart hmem hb
    have := h.ordered site hmem
    omega
  have hcopied : Copied code b (b + 3) ((site.resize patch).apply code (encodeNumber patch).toArray)
      ((site.resize patch).place b) :=
    Resize.apply_copied rfl (h.site_inside hmem) (h.length_pos hmem) hapart
  have hplaced : (site.resize patch).place b ∈ scan'.branches := by
    rw [hbranches]
    exact List.mem_map_of_mem hb
  obtain ⟨t', ht', hshifted⟩ := hret.targets _ hplaced t (readU24_copied hcopied ht)
  have hfits : (site.resize patch).place t.toNat < 2 ^ 64 := by
    have ht := t.toNat_lt
    have hlength := length_encodeNumber_le hpatch
    have hplace := (site.resize patch).place_le t.toNat
    simp only [PatchSite.resize, maxNumberLength] at hlength hplace ⊢
    omega
  exact ⟨t, t', ht, ht', hshifted.trans
    (Resize.shifted_eq_place (r := site.resize patch) (h.targets b hb t ht site hmem) hfits)⟩

theorem WellLaidOut.patches_respliced (h : scan.WellLaidOut code)
    (hsite : scan.patches[n]? = some site)
    (hsize : code.size + (encodeNumber patch).length < 2 ^ 64 + site.length) (m : Nat) :
    (scan.respliced n site.operand ((encodeNumber patch).length - site.length)
        (encodeNumber patch).length patch).patches[m]? = scan.patches[m]?.map fun s =>
      if m = n then { s with length := (encodeNumber patch).length, patch }
      else { s with
        command := (site.resize patch).place s.command
        operand := (site.resize patch).place s.operand } := by
  simp only [respliced, List.getElem?_modify, List.getElem?_map]
  cases hs : scan.patches[m]? with
  | none => rfl
  | some s =>
    simp only [Option.map_some, h.shiftedSite_eq hsite hs hsize]
    by_cases hmn : m = n
    · subst hmn
      obtain rfl : s = site := Option.some.inj (hs.symm.trans hsite)
      have hcommand : (s.resize patch).place s.command = s.command :=
        Resize.place_of_le (h.ordered s (List.mem_of_getElem? hs))
      have hoperand : (s.resize patch).place s.operand = s.operand :=
        Resize.place_of_le (Nat.le_refl _)
      simp [hcommand, hoperand]
    · simp [hmn, Ne.symm hmn]

theorem WellLaidOut.relocated (h : scan.WellLaidOut code) (hsite : scan.patches[n]? = some site)
    (hpatch : patch.toNat < 2 ^ 28) (hsize : code'.size < 2 ^ 64)
    (hsplice : splice code scan n patch = ((code', scan'), .ok ())) :
    Relocated n site patch code scan code' scan' := by
  have hmem := List.mem_of_getElem? hsite
  have hinside := h.site_inside hmem
  have hsizes := h.size_of_splice hsite hsplice
  obtain ⟨hbranches, hret⟩ := h.retargeted hsite hsize hsplice
  obtain ⟨hscan, -⟩ := splice_of_site hsite hsplice
  have hother : ∀ i, (∀ b ∈ scan.branches, i < (site.resize patch).place b ∨
      (site.resize patch).place b + 3 ≤ i) →
      code'[i]? = ((site.resize patch).apply code (encodeNumber patch).toArray)[i]? := by
    intro i hi
    apply hret.others
    rw [hbranches]
    simpa using hi
  exact {
    size := hsizes
    operand := by
      refine Bytes.at_of_getElem? (by simp only [List.size_toArray]; omega) ?_
      intro i hi
      rw [hother _ fun b hb => h.operand_outside_placed hmem hb hi]
      exact (Resize.apply_at (by simp only [PatchSite.resize]; omega)).getElem? hi
    others := by
      intro p hp hout hbranch
      rw [hother _ fun b hb => h.outside_placed hmem hb hout (hbranch b hb)]
      exact Resize.apply_place rfl hinside (h.length_pos hmem) hout
    branches := hbranches
    targets := fun b hb => h.target_placed hsite hpatch hsize hsplice hb
    patches := by
      intro m
      rw [hscan]
      exact h.patches_respliced hsite (by omega) m
    isDynamic := by
      rw [hscan]
      rfl }

/-! ### The layout afterwards -/

/-- A site afterwards is the changed one, or one that moved as a whole. -/
theorem Relocated.patch_cases (hrel : Relocated n site patch code scan code' scan')
    (hsite : scan.patches[n]? = some site) {m : Nat} {s' : PatchSite}
    (hs' : scan'.patches[m]? = some s') :
    (m = n ∧ s' = { site with length := (encodeNumber patch).length, patch }) ∨
    (m ≠ n ∧ ∃ s, scan.patches[m]? = some s ∧ s' = { s with
      command := (site.resize patch).place s.command
      operand := (site.resize patch).place s.operand }) := by
  rw [hrel.patches m] at hs'
  obtain ⟨s, hs, rfl⟩ := Option.map_eq_some_iff.1 hs'
  by_cases hmn : m = n
  · subst hmn
    obtain rfl : s = site := Option.some.inj (hs.symm.trans hsite)
    exact .inl ⟨rfl, by simp⟩
  · exact .inr ⟨hmn, s, hs, by simp [hmn]⟩

theorem Relocated.map_patch (hrel : Relocated n site patch code scan code' scan') :
    scan'.patches.map (·.patch) = (scan.patches.map (·.patch)).set n patch := by
  apply List.ext_getElem?
  intro m
  rw [List.getElem?_map, hrel.patches m, List.getElem?_set, List.length_map, List.getElem?_map,
    Option.map_map]
  by_cases hmn : m = n
  · subst hmn
    by_cases hlt : m < scan.patches.length
    · simp [hlt]
    · simp [hlt]
  · rw [if_neg (Ne.symm hmn)]
    congr 1
    funext s
    simp [hmn]

theorem Relocated.spans_eq (hrel : Relocated n site patch code scan code' scan')
    (h : scan.WellLaidOut code) (hsite : scan.patches[n]? = some site) :
    scan'.spans = scan.spans.map (Span.place (site.resize patch)) := by
  have hmem := List.mem_of_getElem? hsite
  unfold spans
  rw [List.map_append, List.map_map, List.map_map, hrel.branches, List.map_map]
  congr 1
  · apply List.ext_getElem?
    intro m
    rw [List.getElem?_map, List.getElem?_map]
    cases hs' : scan'.patches[m]? with
    | none =>
      have hs := hrel.patches m
      rw [hs', eq_comm, Option.map_eq_none_iff] at hs
      rw [hs]
      rfl
    | some s' =>
      rcases hrel.patch_cases hsite hs' with ⟨rfl, rfl⟩ | ⟨hmn, s, hs, rfl⟩
      · rw [hsite]
        have hpos := h.length_pos hmem
        have hcommand : (site.resize patch).place site.command = site.command :=
          Resize.place_of_le (h.ordered site hmem)
        have hstop : (site.resize patch).place (site.operand + site.length)
            = site.operand + (encodeNumber patch).length := by
          rw [Resize.place_of_lt (by simp only [PatchSite.resize]; omega)]
          simp only [PatchSite.resize]
          omega
        simp [PatchSite.span, Span.place, hcommand, hstop]
      · rw [hs]
        simp [PatchSite.span, Span.place, h.place_operand_end hsite hs hmn]
  · apply List.map_congr_left
    intro b hb
    simp [Span.ofBranch, Span.place, h.place_branch_end hmem hb]

/-- What lies outside the operand and the branch operands is copied as a whole. -/
theorem Relocated.copied (hrel : Relocated n site patch code scan code' scan') {p q : Nat}
    (hlength : 0 < site.length) (hq : q ≤ code.size)
    (hout : q ≤ site.operand ∨ site.operand + site.length ≤ p)
    (hbranches : ∀ b ∈ scan.branches, q ≤ b ∨ b + 3 ≤ p) :
    Copied code p q code' ((site.resize patch).place p) := by
  intro i hi
  rw [← Resize.place_add hlength (by simp only [PatchSite.resize]; omega)]
  refine hrel.others (p + i) (by omega) (by omega) ?_
  intro b hb
  have := hbranches b hb
  omega

theorem Relocated.spans_apart (hrel : Relocated n site patch code scan code' scan')
    (h : scan.WellLaidOut code) (hsite : scan.patches[n]? = some site) :
    scan'.spans.Pairwise Span.Apart := by
  have hmem := List.mem_of_getElem? hsite
  rw [hrel.spans_eq h hsite, List.pairwise_map]
  refine h.apart.imp_of_mem ?_
  intro s t hs ht hapart
  exact hapart.place (h.clear hmem hs).1 (h.clear hmem ht).1

/-- The operand of another site still reads as its patch. -/
theorem Relocated.reads_other (hrel : Relocated n site patch code scan code' scan')
    (h : scan.WellLaidOut code) (hsite : scan.patches[n]? = some site) {m : Nat} {s : PatchSite}
    (hs : scan.patches[m]? = some s) (hmn : m ≠ n) :
    readNumber code' ((site.resize patch).place s.operand)
      = .ok (s.patch, (site.resize patch).place s.operand + s.length) := by
  have hmem := List.mem_of_getElem? hsite
  have hmem' := List.mem_of_getElem? hs
  have hordered := h.ordered site hmem
  have hordered' := h.ordered s hmem'
  have hapart := h.sites_apart hsite hs hmn
  simp only [Span.Apart, PatchSite.span] at hapart
  have hcopied : Copied code s.operand (s.operand + s.length) code'
      ((site.resize patch).place s.operand) := by
    refine hrel.copied (h.length_pos hmem) (h.site_inside hmem') (by omega) ?_
    intro b hb
    have := h.site_branch_apart hmem' hb
    omega
  have hread := readNumber_copied hcopied (h.reads s hmem')
  rwa [Nat.add_sub_cancel_left] at hread

/-- A target that is in no operand is in none after it was corrected. -/
theorem Relocated.target_clear (hrel : Relocated n site patch code scan code' scan')
    (h : scan.WellLaidOut code) (hsite : scan.patches[n]? = some site) {t : Nat}
    (ht : ∀ s ∈ scan.patches, t ≤ s.operand ∨ s.operand + s.length ≤ t) {s' : PatchSite}
    (hs' : s' ∈ scan'.patches) :
    (site.resize patch).place t ≤ s'.operand ∨
      s'.operand + s'.length ≤ (site.resize patch).place t := by
  have hmem := List.mem_of_getElem? hsite
  have hpos := h.length_pos hmem
  have hclear : (site.resize patch).Clear t := ht site hmem
  obtain ⟨m, hs'⟩ := List.mem_iff_getElem?.1 hs'
  rcases hrel.patch_cases hsite hs' with ⟨rfl, rfl⟩ | ⟨hmn, s, hs, rfl⟩
  · rcases hclear with hle | hle
    · rw [Resize.place_of_le hle]
      exact .inl hle
    · simp only [PatchSite.resize] at hle
      rw [Resize.place_of_lt (by simp only [PatchSite.resize]; omega)]
      simp only [PatchSite.resize]
      omega
  · rcases ht s (List.mem_of_getElem? hs) with hle | hle
    · exact .inl (Resize.place_mono (h.clear_operand hsite hs) hle)
    · have := Resize.place_mono hclear hle
      rw [h.place_operand_end hsite hs hmn] at this
      exact .inr this

theorem Relocated.wellLaidOut (hrel : Relocated n site patch code scan code' scan')
    (h : scan.WellLaidOut code) (hsite : scan.patches[n]? = some site)
    (hpatch : patch.toNat < 2 ^ 28) : scan'.WellLaidOut code' where
  inside s' hs' := by
    rw [hrel.spans_eq h hsite] at hs'
    obtain ⟨s, hs, rfl⟩ := List.mem_map.1 hs'
    have hsizes := hrel.size
    have := h.place_le_size (List.mem_of_getElem? hsite) patch (h.inside s hs)
    simp only [Span.place]
    omega
  apart := hrel.spans_apart h hsite
  ordered s' hs' := by
    obtain ⟨m, hs'⟩ := List.mem_iff_getElem?.1 hs'
    rcases hrel.patch_cases hsite hs' with ⟨rfl, rfl⟩ | ⟨hmn, s, hs, rfl⟩
    · exact h.ordered site (List.mem_of_getElem? hsite)
    · exact Resize.place_mono (h.clear_operand hsite hs) (h.ordered s (List.mem_of_getElem? hs))
  reads s' hs' := by
    obtain ⟨m, hs'⟩ := List.mem_iff_getElem?.1 hs'
    rcases hrel.patch_cases hsite hs' with ⟨rfl, rfl⟩ | ⟨hmn, s, hs, rfl⟩
    · exact readNumber_encodeNumber hpatch hrel.operand
    · exact hrel.reads_other h hsite hs hmn
  targets b' hb' t' ht' s' hs' := by
    rw [hrel.branches] at hb'
    obtain ⟨b, hb, rfl⟩ := List.mem_map.1 hb'
    obtain ⟨t, u, ht, hu, hplace⟩ := hrel.targets b hb
    obtain rfl : t' = u := by
      rw [hu] at ht'
      cases ht'
      rfl
    rw [hplace]
    exact hrel.target_clear h hsite (h.targets b hb t ht) hs'

end Step

/-! ## Any number of splices -/

/-- One splice that succeeds, with a patch that four bytes hold. Offsets are words of 64 bits,
which bounds the bytecode. -/
def Splices (before after : Bytes × PatchScan) : Prop :=
  ∃ n patch, patch.toNat < 2 ^ 28 ∧ after.1.size < 2 ^ 64 ∧
    splice before.1 before.2 n patch = (after, .ok ())

theorem WellLaidOut.splices {before after : Bytes × PatchScan}
    (h : before.2.WellLaidOut before.1) {n : Nat} {patch : UInt32} (hpatch : patch.toNat < 2 ^ 28)
    (hsize : after.1.size < 2 ^ 64) (hsplice : splice before.1 before.2 n patch = (after, .ok ())) :
    ∃ site, before.2.patches[n]? = some site ∧
      Relocated n site patch before.1 before.2 after.1 after.2 ∧ after.2.WellLaidOut after.1 := by
  cases hsite : before.2.patches[n]? with
  | none => simp [splice, hsite] at hsplice
  | some site =>
    have hrel := h.relocated hsite hpatch hsize hsplice
    exact ⟨site, rfl, hrel, hrel.wellLaidOut h hsite hpatch⟩

theorem WellLaidOut.run {start state : Bytes × PatchScan} (h : start.2.WellLaidOut start.1)
    (hrun : Relation.ReflTransGen Splices start state) : state.2.WellLaidOut state.1 := by
  induction hrun with
  | refl => exact h
  | tail _ hstep ih =>
    obtain ⟨n, patch, hpatch, hsize, hsplice⟩ := hstep
    obtain ⟨site, -, -, hlaid⟩ := ih.splices hpatch hsize hsplice
    exact hlaid

end PatchScan

end SoundArchive
