import Mathlib
import SoundArchive.Proofs.Sequence.StaticClosure

/-!
# When a scan lists every patch change once

Offsets are visited once, but a patch change behind a conditional has an offset of its own too.
Branch operands that are met at both are listed once, patch changes are not.
-/

namespace SoundArchive

namespace PatchScan

/-- No patch change is reached at two offsets, such as behind a conditional and without it. -/
def ReachesPatchesOnce (code : Bytes) : Prop :=
  ∀ p q c, InClosure code p → InClosure code q → core? code p = some (c, .patch) →
    core? code q = some (c, .patch) → p = q

/-- Where a visit of `p` finds a patch change, behind any conditionals. -/
def patchCommand? (code : Bytes) (p : Nat) : Option Nat :=
  ((findingAt? code p).bind Finding.patch?).map (·.command)

variable {code : Bytes} {scan : PatchScan} {p c : Nat} {v : Visit}

theorem patchCommand?_eq_some (h : visit code p = .ok v) :
    patchCommand? code p = some c ↔ core? code p = some (c, .patch) := by
  obtain ⟨c', op, hcore, hfits⟩ := has_finding h
  simp only [patchCommand?, findingAt?, h, Except.toOption, Option.map_some, Option.bind_some,
    hcore, Option.some.injEq, Prod.mk.injEq]
  cases hfinding : v.finding with
  | patch site =>
    rw [hfinding] at hfits
    obtain ⟨rfl, rfl, -⟩ := hfits
    simp [Finding.patch?]
  | nothing =>
    rw [hfinding] at hfits
    simp [Finding.patch?, hfits.1]
  | branch operand target =>
    rw [hfinding] at hfits
    refine iff_of_false (by simp [Finding.patch?]) ?_
    rintro ⟨-, rfl⟩
    simp [Finding.Fits, targetOperand?] at hfits
  | computed =>
    rw [hfinding] at hfits
    rcases hfits.1 with rfl | rfl <;> simp [Finding.patch?]

/-- What is taken from members that differ differs too, unless two of them give the same. -/
theorem nodup_filterMap_iff {α β : Type} {f : α → Option β} {l : List α} (hl : l.Nodup) :
    (l.filterMap f).Nodup ↔
      ∀ a ∈ l, ∀ b ∈ l, ∀ x, f a = some x → f b = some x → a = b := by
  constructor
  · intro h a ha b hb x hfa hfb
    by_contra hab
    have hapart := List.pairwise_filterMap.1 h
    have : Std.Symm fun a b : α => ∀ x, f a = some x → ∀ y, f b = some y → x ≠ y :=
      ⟨fun a b h x hx y hy => (h y hy x hx).symm⟩
    exact hapart.forall ha hb hab x hfa x hfb rfl
  · intro h
    unfold List.Nodup
    rw [List.pairwise_filterMap]
    refine hl.imp_of_mem fun ha hb hab x hx y hy hxy => hab ?_
    subst hxy
    exact h _ ha _ hb x hx hy

theorem patches_pairwise_le (h : scanPatches code = .ok scan) :
    scan.patches.Pairwise (·.command ≤ ·.command) := by
  unfold scanPatches at h
  obtain ⟨found, -, h⟩ := bind_eq_ok.1 h
  cases h
  have hsorted : found.ordered.patches.Pairwise fun a b => decide (a.command ≤ b.command) := by
    apply List.pairwise_mergeSort
    · intro a b c hab hbc
      simp only [decide_eq_true_eq] at hab hbc ⊢
      omega
    · intro a b
      simp only [Bool.or_eq_true, decide_eq_true_eq]
      omega
  exact hsorted.imp of_decide_eq_true

theorem operand_of_mem_patches (h : scanPatches code = .ok scan) {site : PatchSite}
    (hsite : site ∈ scan.patches) : site.operand = site.command + 1 := by
  have hfaithful := faithful_of_scan h
  obtain ⟨p, hp⟩ := (hfaithful.patches site).1 hsite
  obtain ⟨-, c, op, -, hfits⟩ := hfaithful.finds_iff.1 hp
  obtain ⟨-, rfl, hoperand, -⟩ := hfits
  exact hoperand

theorem nodup_commands_iff (h : scanPatches code = .ok scan) :
    (scan.patches.map (·.command)).Nodup ↔ ReachesPatchesOnce code := by
  obtain ⟨visited, hnodup, hvisited, hpatches, -⟩ := visited_of_scan h
  have hcommands : (scan.patches.map (·.command)).Perm
      (visited.filterMap (patchCommand? code)) := by
    refine (hpatches.map _).trans (.of_eq ?_)
    rw [List.filterMap_filterMap, List.map_filterMap]
    rfl
  rw [hcommands.nodup_iff, nodup_filterMap_iff hnodup]
  have hcore : ∀ {p c}, p ∈ visited →
      (patchCommand? code p = some c ↔ core? code p = some (c, .patch)) := by
    intro p c hp
    obtain ⟨v, hv⟩ := (faithful_of_scan h).visits p ((hvisited p).1 hp)
    exact patchCommand?_eq_some hv
  have hmem : ∀ p, p ∈ visited ↔ InClosure code p := fun p => (hvisited p).trans inClosure_iff.symm
  constructor
  · intro hinj p q c hp hq hpc hqc
    have hp := (hmem p).2 hp
    have hq := (hmem q).2 hq
    exact hinj p hp q hq c ((hcore hp).2 hpc) ((hcore hq).2 hqc)
  · intro honce p hp q hq c hpc hqc
    exact honce p q c ((hmem p).1 hp) ((hmem q).1 hq) ((hcore hp).1 hpc) ((hcore hq).1 hqc)

/-- Patch changes are listed in strict order of their commands, and of their operands, exactly if
none of them is reached at two offsets. -/
theorem patches_pairwise_lt_iff (h : scanPatches code = .ok scan) :
    ((scan.patches.map (·.command)).Pairwise (· < ·) ∧
        (scan.patches.map (·.operand)).Pairwise (· < ·)) ↔ ReachesPatchesOnce code := by
  have hoperands : scan.patches.map (·.operand) = (scan.patches.map (·.command)).map (· + 1) := by
    rw [List.map_map]
    exact List.map_congr_left fun site hsite => operand_of_mem_patches h hsite
  have hsorted : (scan.patches.map (·.command)).Pairwise (· ≤ ·) :=
    List.pairwise_map.2 (patches_pairwise_le h)
  rw [← nodup_commands_iff h, hoperands]
  constructor
  · rintro ⟨hlt, -⟩
    exact hlt.imp Nat.ne_of_lt
  · intro hnodup
    have hlt := (hsorted.and hnodup).imp fun hab => Nat.lt_of_le_of_ne hab.1 hab.2
    exact ⟨hlt, List.pairwise_map.2 (hlt.imp Nat.succ_lt_succ)⟩

/-- Two patch changes, the first behind a conditional. -/
theorem reachesPatchesOnce_of_conditional :
    ReachesPatchesOnce #[0xA2, 0x81, 5, 0x81, 6, 0xFF] :=
  have h : scanPatches #[0xA2, 0x81, 5, 0x81, 6, 0xFF]
      = .ok ⟨[⟨1, 2, 1, 5⟩, ⟨3, 4, 1, 6⟩], [], false⟩ := by cbv
  (patches_pairwise_lt_iff h).1 (by decide)

/-- A jump to the patch change behind a conditional gets it listed twice. -/
theorem not_patches_pairwise_lt :
    ¬ ∀ code scan, scanPatches code = .ok scan →
      (scan.patches.map (·.command)).Pairwise (· < ·) := by
  intro hall
  have h : scanPatches #[0xA2, 0x81, 5, 0x94, 1, 0, 0]
      = .ok ⟨[⟨1, 2, 1, 5⟩, ⟨1, 2, 1, 5⟩], [4], false⟩ := by cbv
  exact absurd (hall _ _ h) (by decide)

end PatchScan

end SoundArchive
