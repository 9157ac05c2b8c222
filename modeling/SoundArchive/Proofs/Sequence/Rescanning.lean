import SoundArchive.Proofs.Sequence.Findings
import SoundArchive.Proofs.Sequence.Splicing
import SoundArchive.Proofs.Sequence.Visits

/-!
# A scan of spliced bytecode finds what the splice left

The commands that it reaches are those that were reached before, where the splice moved them. This
needs that what is recorded of a command lies apart from the other commands: a patch change that
is reached both behind a conditional and without it is recorded twice.
-/

namespace SoundArchive

open Bytecode

namespace PatchScan

/-! ## Commands that lie apart -/

/-- A patch change does not overlap other commands, and the operand of a branch overlaps only
commands that it is the operand of. -/
structure PartsApart (code : Bytes) : Prop where
  patches : ∀ p site q w, Finds code p (.patch site) → Reached code q → visit code q = .ok w →
    q = p ∨ site.span.Apart ⟨q, w.behind⟩
  branches : ∀ p operand target q w, Finds code p (.branch operand target) → Reached code q →
    visit code q = .ok w →
    w.finding = .branch operand target ∨ (Span.ofBranch operand).Apart ⟨q, w.behind⟩

variable {code : Bytes} {scan : PatchScan} {p q : Nat} {v : Visit}

theorem Finds.sound {f : Finding} (h : Finds code p f) :
    ∃ v, visit code p = .ok v ∧ v.finding = f ∧ v.behind ≤ code.size ∧
      f.Describes code p v.behind := by
  obtain ⟨-, v, hv, rfl⟩ := h
  exact ⟨v, hv, rfl, (visit_sound hv).2⟩

theorem Finds.unique {f g : Finding} (hf : Finds code p f) (hg : Finds code p g) : f = g := by
  obtain ⟨-, v, hv, rfl⟩ := hf
  obtain ⟨-, w, hw, rfl⟩ := hg
  rw [hv] at hw
  cases hw
  rfl

theorem PartsApart.sites (h : PartsApart code) {s t : PatchSite} (hs : Finds code p (.patch s))
    (ht : Finds code q (.patch t)) (hpq : p ≠ q) : s.span.Apart t.span := by
  obtain ⟨v, hv, -, -, hcommand, hoperand, hbehind, -⟩ := ht.sound
  have hapart := (h.patches p s q v hs ht.1 hv).resolve_left (Ne.symm hpq)
  simp only [Span.Apart, PatchSite.span] at hapart ⊢
  omega

theorem PartsApart.site_branch (h : PartsApart code) {s : PatchSite} {operand target : Nat}
    (hs : Finds code p (.patch s)) (hb : Finds code q (.branch operand target)) :
    s.span.Apart (.ofBranch operand) := by
  obtain ⟨v, hv, -, -, hoperand, hbehind, -⟩ := hb.sound
  have hpq : q ≠ p := by
    rintro rfl
    cases hs.unique hb
  have hapart := (h.patches p s q v hs hb.1 hv).resolve_left hpq
  simp only [Span.Apart, PatchSite.span, Span.ofBranch] at hapart ⊢
  omega

theorem PartsApart.branch_operands (h : PartsApart code) {b b' t t' : Nat}
    (hb : Finds code p (.branch b t)) (hb' : Finds code q (.branch b' t')) (hne : b ≠ b') :
    (Span.ofBranch b).Apart (.ofBranch b') := by
  obtain ⟨v, hv, hfinding, -, hoperand, hbehind, -⟩ := hb'.sound
  have hapart := (h.branches p b t q v hb hb'.1 hv).resolve_left (by rw [hfinding]; grind)
  simp only [Span.Apart, Span.ofBranch] at hapart ⊢
  omega

theorem target_mem_successors {b t : Nat} (h : v.finding = .branch b t) : t ∈ v.successors := by
  unfold Visit.successors
  rw [h]
  cases v.fallsThrough <;> simp

/-- A branch leads to a command that is reached, so into no patch change. -/
theorem PartsApart.target_clear (h : PartsApart code)
    (hvisits : ∀ p, Reached code p → ∃ v, visit code p = .ok v) {s : PatchSite} {b t : Nat}
    (hs : Finds code p (.patch s)) (hb : Finds code q (.branch b t)) :
    t ≤ s.operand ∨ s.operand + s.length ≤ t := by
  obtain ⟨v, hv, hfinding, -⟩ := hb.sound
  obtain ⟨-, -, -, -, hcommand, hoperand, -⟩ := hs.sound
  have htarget : Reached code t := .next hb.1 hv (target_mem_successors hfinding)
  obtain ⟨w, hw⟩ := hvisits t htarget
  have hlt := (visit_sound hw).1
  rcases h.patches p s t w hs htarget hw with rfl | hapart
  · omega
  · simp only [Span.Apart, PatchSite.span] at hapart
    omega

theorem pairwise_sites (h : scanPatches code = .ok scan) (hapart : PartsApart code) :
    scan.patches.Pairwise fun s t => s.span.Apart t.span := by
  obtain ⟨visited, hnodup, hvisited, hpatches, -⟩ := visited_of_scan h
  rw [hpatches.pairwise_iff fun hst => hst.symm, List.pairwise_filterMap, List.pairwise_filterMap]
  refine hnodup.imp_of_mem fun {p q} hp hq hpq f hf g hg s hs t ht => ?_
  have hfinds : ∀ {p f}, p ∈ visited → findingAt? code p = some f → Finds code p f := by
    intro p f hp hf
    obtain ⟨v, hv, rfl⟩ := Option.map_eq_some_iff.1 hf
    exact ⟨(hvisited p).1 hp, v, toOption_eq_some.1 hv, rfl⟩
  cases f <;> cases hs
  cases g <;> cases ht
  exact hapart.sites (hfinds hp hf) (hfinds hq hg) hpq

theorem wellLaidOut_of_scan (h : scanPatches code = .ok scan) (hapart : PartsApart code) :
    scan.WellLaidOut code := by
  have hfaithful := faithful_of_scan h
  constructor
  case inside =>
    intro s hs
    rcases List.mem_append.1 hs with hs | hs
    · obtain ⟨site, hsite, rfl⟩ := List.mem_map.1 hs
      obtain ⟨p, hfinds⟩ := (hfaithful.patches site).1 hsite
      obtain ⟨v, -, -, hsize, -, -, hbehind, -⟩ := hfinds.sound
      exact hbehind.trans_le hsize
    · obtain ⟨b, hb, rfl⟩ := List.mem_map.1 hs
      obtain ⟨p, t, hfinds⟩ := (hfaithful.branches b).1 hb
      obtain ⟨v, -, -, hsize, -, hbehind, -⟩ := hfinds.sound
      exact hbehind.trans_le hsize
  case apart =>
    refine List.pairwise_append.2 ⟨List.pairwise_map.2 (pairwise_sites h hapart), ?_, ?_⟩
    · obtain ⟨visited, -, -, -, hbranches, -⟩ := visited_of_scan h
      have hsorted : scan.branches.Pairwise (· < ·) := hbranches ▸ ascending_pairwise_lt _
      refine List.pairwise_map.2 (hsorted.imp_of_mem fun {b b'} hb hb' hlt => ?_)
      obtain ⟨p, t, hfinds⟩ := (hfaithful.branches b).1 hb
      obtain ⟨q, t', hfinds'⟩ := (hfaithful.branches b').1 hb'
      exact hapart.branch_operands hfinds hfinds' (Nat.ne_of_lt hlt)
    · intro s hs s' hs'
      obtain ⟨site, hsite, rfl⟩ := List.mem_map.1 hs
      obtain ⟨b, hb, rfl⟩ := List.mem_map.1 hs'
      obtain ⟨p, hfinds⟩ := (hfaithful.patches site).1 hsite
      obtain ⟨q, t, hfinds'⟩ := (hfaithful.branches b).1 hb
      exact hapart.site_branch hfinds hfinds'
  case ordered =>
    intro s hs
    obtain ⟨p, hfinds⟩ := (hfaithful.patches s).1 hs
    obtain ⟨v, -, -, -, -, hoperand, -⟩ := hfinds.sound
    omega
  case reads =>
    intro s hs
    obtain ⟨p, hfinds⟩ := (hfaithful.patches s).1 hs
    obtain ⟨v, -, -, -, -, -, hbehind, hread⟩ := hfinds.sound
    rw [hbehind, hread]
  case targets =>
    intro b hb t ht s hs
    obtain ⟨p, hfinds⟩ := (hfaithful.patches s).1 hs
    obtain ⟨q, target, hfinds'⟩ := (hfaithful.branches b).1 hb
    obtain ⟨v, -, -, -, -, hbehind, t', hread, rfl⟩ := hfinds'.sound
    rw [← hbehind, ht] at hread
    cases hread
    exact hapart.target_clear hfaithful.visits hfinds hfinds'

/-! ## One splice -/

/-- Bytecode and a scan that tells all that is found in it. -/
structure Scanned (code : Bytes) (scan : PatchScan) : Prop where
  faithful : scan.Faithful code
  wellLaidOut : scan.WellLaidOut code
  apart : PartsApart code

theorem scanned_of_scan (h : scanPatches code = .ok scan) (hapart : PartsApart code) :
    Scanned code scan :=
  ⟨faithful_of_scan h, wellLaidOut_of_scan h hapart, hapart⟩

section Step

variable {code' : Bytes} {scan' : PatchScan} {n : Nat} {site : PatchSite} {patch : UInt32}

/-- Where a site is and what it selects after `patch` replaced the operand of `site`. -/
def relocateSite (site : PatchSite) (patch : UInt32) (s : PatchSite) : PatchSite :=
  if s = site then { site with length := (encodeNumber patch).length, patch }
  else { s with
    command := (site.resize patch).place s.command
    operand := (site.resize patch).place s.operand }

def Finding.relocate (site : PatchSite) (patch : UInt32) : Finding → Finding
  | .patch s => .patch (relocateSite site patch s)
  | .branch operand target =>
    .branch ((site.resize patch).place operand) ((site.resize patch).place target)
  | .nothing => .nothing
  | .computed => .computed

def Visit.relocate (site : PatchSite) (patch : UInt32) (v : Visit) : Visit where
  finding := v.finding.relocate site patch
  behind := (site.resize patch).place v.behind
  fallsThrough := v.fallsThrough

/-- A command that is reached ends with the operand, or lies in front of it or behind it. -/
theorem Scanned.beside (h : Scanned code scan) (hsite : site ∈ scan.patches)
    (hp : Reached code p) (hv : visit code p = .ok v) :
    (v.literal = site.operand ∧ v.behind = site.operand + site.length) ∨
      v.behind ≤ site.operand ∨ site.operand + site.length ≤ p := by
  obtain ⟨p₀, hfinds⟩ := (h.faithful.patches site).1 hsite
  obtain ⟨w, hw, hfinding, -, hcommand, hoperand, hbehind, -⟩ := hfinds.sound
  rcases h.apart.patches p₀ site p v hfinds hp hv with rfl | hapart
  · rw [hv] at hw
    cases hw
    have hliteral : v.literal = site.operand := by rw [Visit.literal, hfinding]
    omega
  · simp only [Span.Apart, PatchSite.span] at hapart
    omega

/-- The ends of a command that is reached do not lie inside the operand. -/
theorem Scanned.clear (h : Scanned code scan) (hsite : site ∈ scan.patches)
    (hp : Reached code p) (hv : visit code p = .ok v) :
    (site.resize patch).Clear p ∧ (site.resize patch).Clear v.behind := by
  have hordered := h.wellLaidOut.ordered site hsite
  have hbounds := literal_bounds hv
  have hbeside := h.beside hsite hp hv
  simp only [Resize.Clear, PatchSite.resize]
  omega

/-- All of a command that is no number lies in front of the operand or behind it. -/
theorem Scanned.outside (h : Scanned code scan) (hsite : site ∈ scan.patches)
    (hp : Reached code p) (hv : visit code p = .ok v) :
    v.literal ≤ site.operand ∨ site.operand + site.length ≤ p := by
  have hbounds := literal_bounds hv
  have hbeside := h.beside hsite hp hv
  omega

/-- The bytes of a command up to its number are copied. -/
theorem Scanned.copied (h : Scanned code scan) (hsite : site ∈ scan.patches)
    (hrel : Relocated n site patch code scan code' scan')
    (hp : Reached code p) (hv : visit code p = .ok v) :
    Copied code p v.literal code' ((site.resize patch).place p) := by
  have hbounds := literal_bounds hv
  have hsize := (visit_sound hv).2.1
  have hout := h.outside hsite hp hv
  refine hrel.copied (h.wellLaidOut.length_pos hsite) (hbounds.2.trans hsize) hout ?_
  intro b hb
  obtain ⟨p₀, t, hfinds⟩ := (h.faithful.branches b).1 hb
  rcases h.apart.branches p₀ b t p v hfinds hp hv with hfinding | hapart
  · rw [Visit.literal, hfinding]
    exact .inl (Nat.le_refl _)
  · simp only [Span.Apart, Span.ofBranch] at hapart
    omega

/-- The operand of a patch change is where it was moved to, and reads as what it selects now. -/
theorem WellLaidOut.relocateSite_reads (h : scan.WellLaidOut code)
    (hsite : scan.patches[n]? = some site)
    (hrel : Relocated n site patch code scan code' scan') (hpatch : patch.toNat < 2 ^ 28)
    {s : PatchSite} (hs : s ∈ scan.patches) :
    (relocateSite site patch s).command = (site.resize patch).place s.command ∧
      (relocateSite site patch s).operand = (site.resize patch).place s.operand ∧
      (relocateSite site patch s).operand + (relocateSite site patch s).length
        = (site.resize patch).place (s.operand + s.length) ∧
      readNumber code' (relocateSite site patch s).operand
        = .ok ((relocateSite site patch s).patch,
            (relocateSite site patch s).operand + (relocateSite site patch s).length) := by
  have hmem := List.mem_of_getElem? hsite
  have hordered := h.ordered site hmem
  have hpos := h.length_pos hmem
  unfold relocateSite
  split
  · next heq =>
    subst heq
    refine ⟨(Resize.place_of_le hordered).symm,
      (Resize.place_of_le (r := s.resize patch) (Nat.le_refl _)).symm, ?_, ?_⟩
    · rw [Resize.place_of_lt (by simp only [PatchSite.resize]; omega)]
      simp only [PatchSite.resize]
      omega
    · exact readNumber_encodeNumber hpatch hrel.operand
  · next hne =>
    obtain ⟨m, hm⟩ := List.mem_iff_getElem?.1 hs
    have hmn : m ≠ n := by
      rintro rfl
      exact hne (Option.some.inj (hm.symm.trans hsite))
    exact ⟨rfl, rfl, (h.place_operand_end hsite hm hmn).symm, hrel.reads_other h hsite hm hmn⟩

theorem Scanned.moved (h : Scanned code scan) (hsite : scan.patches[n]? = some site)
    (hrel : Relocated n site patch code scan code' scan') (hpatch : patch.toNat < 2 ^ 28)
    (hp : Reached code p) (hv : visit code p = .ok v) :
    v.Moved code' (site.resize patch).place (v.relocate site patch) := by
  obtain ⟨f, behind, fallsThrough⟩ := v
  have hdescribes := (visit_sound hv).2.2
  cases f with
  | nothing => exact .nothing behind fallsThrough
  | computed => exact .computed behind fallsThrough
  | patch s =>
    obtain ⟨-, -, rfl, -⟩ := hdescribes
    obtain ⟨hcommand, hoperand, hbehind, hread⟩ := h.wellLaidOut.relocateSite_reads hsite hrel
      hpatch ((h.faithful.patches s).2 ⟨p, hp, _, hv, rfl⟩)
    have hmoved := Visit.Moved.patch s _ (s.operand + s.length) fallsThrough hcommand hoperand hread
    rw [hbehind] at hmoved
    exact hmoved
  | branch b t =>
    obtain ⟨-, rfl, u, hu, rfl⟩ := hdescribes
    have hb := (h.faithful.branches b).2 ⟨p, _, hp, _, hv, rfl⟩
    obtain ⟨u', t', hu', hread, htarget⟩ := hrel.targets b hb
    rw [hu] at hu'
    cases hu'
    have hmoved := Visit.Moved.branch b u.toNat (b + 3) fallsThrough hread
    rw [htarget, ← h.wellLaidOut.place_branch_end (List.mem_of_getElem? hsite) hb] at hmoved
    exact hmoved

theorem Scanned.visit_relocate (h : Scanned code scan) (hsite : scan.patches[n]? = some site)
    (hrel : Relocated n site patch code scan code' scan') (hpatch : patch.toNat < 2 ^ 28)
    (hp : Reached code p) (hv : visit code p = .ok v) :
    visit code' ((site.resize patch).place p) = .ok (v.relocate site patch) := by
  have hmem := List.mem_of_getElem? hsite
  refine visit_moved hv ?_ (h.copied hmem hrel hp hv) (h.moved hsite hrel hpatch hp hv)
  intro i hi
  have hlength := h.wellLaidOut.length_pos hmem
  refine Resize.place_add hlength ?_
  have hout := h.outside hmem hp hv
  simp only [PatchSite.resize]
  omega

/-! ### What is reached -/

theorem Visit.successors_relocate (v : Visit) :
    (v.relocate site patch).successors = v.successors.map (site.resize patch).place := by
  obtain ⟨f, behind, fallsThrough⟩ := v
  cases f <;> cases fallsThrough <;> rfl

theorem Scanned.reached_iff (h : Scanned code scan) (hsite : scan.patches[n]? = some site)
    (hrel : Relocated n site patch code scan code' scan') (hpatch : patch.toNat < 2 ^ 28) :
    Reached code' q ↔ ∃ p, Reached code p ∧ (site.resize patch).place p = q := by
  constructor
  · -- Whatever is reached afterwards is the place of a command whose visit is known.
    intro hq
    induction hq with
    | start => exact ⟨0, .start, Resize.place_of_le (Nat.zero_le _)⟩
    | next _ hv hq ih =>
      obtain ⟨p, hp, rfl⟩ := ih
      obtain ⟨w, hw⟩ := h.faithful.visits p hp
      rw [h.visit_relocate hsite hrel hpatch hp hw] at hv
      cases hv
      rw [Visit.successors_relocate] at hq
      obtain ⟨r, hr, rfl⟩ := List.mem_map.1 hq
      exact ⟨r, .next hp hw hr, rfl⟩
  · rintro ⟨p, hp, rfl⟩
    induction hp with
    | start =>
      rw [Resize.place_of_le (Nat.zero_le _)]
      exact .start
    | next hp hv hq ih =>
      refine .next ih (h.visit_relocate hsite hrel hpatch hp hv) ?_
      rw [Visit.successors_relocate]
      exact List.mem_map_of_mem hq

theorem Scanned.finds_iff (h : Scanned code scan) (hsite : scan.patches[n]? = some site)
    (hrel : Relocated n site patch code scan code' scan') (hpatch : patch.toNat < 2 ^ 28)
    {f : Finding} :
    Finds code' q f ↔ ∃ p g, Finds code p g ∧ (site.resize patch).place p = q ∧
      g.relocate site patch = f := by
  constructor
  · rintro ⟨hq, v, hv, rfl⟩
    obtain ⟨p, hp, rfl⟩ := (h.reached_iff hsite hrel hpatch).1 hq
    obtain ⟨w, hw⟩ := h.faithful.visits p hp
    rw [h.visit_relocate hsite hrel hpatch hp hw] at hv
    cases hv
    exact ⟨p, w.finding, ⟨hp, w, hw, rfl⟩, rfl, rfl⟩
  · rintro ⟨p, g, ⟨hp, w, hw, rfl⟩, rfl, rfl⟩
    exact ⟨(h.reached_iff hsite hrel hpatch).2 ⟨p, hp, rfl⟩, _,
      h.visit_relocate hsite hrel hpatch hp hw, rfl⟩

/-! ### What is found -/

theorem WellLaidOut.mem_relocated (h : scan.WellLaidOut code) (hsite : scan.patches[n]? = some site)
    (hrel : Relocated n site patch code scan code' scan') {s' : PatchSite} :
    s' ∈ scan'.patches ↔ ∃ s ∈ scan.patches, relocateSite site patch s = s' := by
  have hsame : ∀ m s, scan.patches[m]? = some s → (m = n ↔ s = site) := by
    intro m s hs
    constructor
    · rintro rfl
      exact Option.some.inj (hs.symm.trans hsite)
    · rintro rfl
      by_contra hmn
      have hapart := h.sites_apart hsite hs hmn
      have hordered := h.ordered s (List.mem_of_getElem? hs)
      have hpos := h.length_pos (List.mem_of_getElem? hs)
      simp only [Span.Apart, PatchSite.span] at hapart
      omega
  have hpatches : scan'.patches = scan.patches.map (relocateSite site patch) := by
    apply List.ext_getElem?
    intro m
    rw [hrel.patches m, List.getElem?_map]
    cases hs : scan.patches[m]? with
    | none => rfl
    | some s =>
      have hiff := hsame m s hs
      simp only [Option.map_some, relocateSite, ← hiff]
      split
      · next hmn => rw [hiff.1 hmn]
      · rfl
  rw [hpatches, List.mem_map]

theorem Finding.relocate_eq_patch {f : Finding} {s' : PatchSite} :
    f.relocate site patch = .patch s' ↔ ∃ s, f = .patch s ∧ relocateSite site patch s = s' := by
  cases f <;> simp [relocate]

theorem Finding.relocate_eq_branch {f : Finding} {b' t' : Nat} :
    f.relocate site patch = .branch b' t' ↔ ∃ b t, f = .branch b t ∧
      (site.resize patch).place b = b' ∧ (site.resize patch).place t = t' := by
  cases f <;> simp [relocate]

theorem Finding.relocate_eq_computed {f : Finding} :
    f.relocate site patch = .computed ↔ f = .computed := by
  cases f <;> simp [relocate]

theorem Scanned.faithful_relocated (h : Scanned code scan) (hsite : scan.patches[n]? = some site)
    (hrel : Relocated n site patch code scan code' scan') (hpatch : patch.toNat < 2 ^ 28) :
    scan'.Faithful code' := by
  constructor
  case visits =>
    intro q hq
    obtain ⟨p, hp, rfl⟩ := (h.reached_iff hsite hrel hpatch).1 hq
    obtain ⟨v, hv⟩ := h.faithful.visits p hp
    exact ⟨_, h.visit_relocate hsite hrel hpatch hp hv⟩
  case patches =>
    intro s'
    simp only [h.wellLaidOut.mem_relocated hsite hrel, h.finds_iff hsite hrel hpatch,
      h.faithful.patches, Finding.relocate_eq_patch]
    constructor
    · rintro ⟨s, ⟨p, hfinds⟩, rfl⟩
      exact ⟨_, p, _, hfinds, rfl, s, rfl, rfl⟩
    · rintro ⟨_, p, _, hfinds, rfl, s, rfl, rfl⟩
      exact ⟨s, ⟨p, hfinds⟩, rfl⟩
  case branches =>
    intro b'
    simp only [hrel.branches, List.mem_map, h.finds_iff hsite hrel hpatch,
      h.faithful.branches, Finding.relocate_eq_branch]
    constructor
    · rintro ⟨b, ⟨p, t, hfinds⟩, rfl⟩
      exact ⟨_, _, p, _, hfinds, rfl, b, t, rfl, rfl, rfl⟩
    · rintro ⟨_, _, p, _, hfinds, rfl, b, t, rfl, rfl, rfl⟩
      exact ⟨b, ⟨p, t, hfinds⟩, rfl⟩
  case isDynamic =>
    simp only [hrel.isDynamic, h.faithful.isDynamic, h.finds_iff hsite hrel hpatch,
      Finding.relocate_eq_computed]
    constructor
    · rintro ⟨p, hfinds⟩
      exact ⟨_, p, _, hfinds, rfl, rfl⟩
    · rintro ⟨_, p, _, hfinds, rfl, rfl⟩
      exact ⟨p, hfinds⟩

theorem Scanned.apart_relocated (h : Scanned code scan) (hsite : scan.patches[n]? = some site)
    (hrel : Relocated n site patch code scan code' scan') (hpatch : patch.toNat < 2 ^ 28) :
    PartsApart code' := by
  have hmem := List.mem_of_getElem? hsite
  constructor
  case patches =>
    intro p' s' q' w' hfinds' hq' hw'
    obtain ⟨p, g, hfinds, rfl, hg⟩ := (h.finds_iff hsite hrel hpatch).1 hfinds'
    obtain ⟨s, rfl, rfl⟩ := Finding.relocate_eq_patch.1 hg
    obtain ⟨q, hq, rfl⟩ := (h.reached_iff hsite hrel hpatch).1 hq'
    obtain ⟨w, hw⟩ := h.faithful.visits q hq
    rw [h.visit_relocate hsite hrel hpatch hq hw] at hw'
    cases hw'
    have hs := (h.faithful.patches s).2 ⟨p, hfinds⟩
    rcases h.apart.patches p s q w hfinds hq hw with rfl | hapart
    · exact .inl rfl
    · right
      have hplaced := hapart.place (r := site.resize patch)
        (h.wellLaidOut.clear hmem (List.mem_append_left _ (List.mem_map_of_mem hs))).1
        (h.clear hmem hq hw).1
      obtain ⟨hcommand, -, hbehind, -⟩ := h.wellLaidOut.relocateSite_reads hsite hrel hpatch hs
      rw [PatchSite.span, hcommand, hbehind]
      exact hplaced
  case branches =>
    intro p' b' t' q' w' hfinds' hq' hw'
    obtain ⟨p, g, hfinds, rfl, hg⟩ := (h.finds_iff hsite hrel hpatch).1 hfinds'
    obtain ⟨b, t, rfl, rfl, rfl⟩ := Finding.relocate_eq_branch.1 hg
    obtain ⟨q, hq, rfl⟩ := (h.reached_iff hsite hrel hpatch).1 hq'
    obtain ⟨w, hw⟩ := h.faithful.visits q hq
    rw [h.visit_relocate hsite hrel hpatch hq hw] at hw'
    cases hw'
    have hb := (h.faithful.branches b).2 ⟨p, t, hfinds⟩
    rcases h.apart.branches p b t q w hfinds hq hw with hfinding | hapart
    · left
      rw [Visit.relocate, hfinding]
      rfl
    · right
      have hplaced := hapart.place (r := site.resize patch) (h.wellLaidOut.clear_branch hmem hb)
        (h.clear hmem hq hw).1
      rw [Span.ofBranch, ← h.wellLaidOut.place_branch_end hmem hb]
      exact hplaced

theorem Scanned.relocated (h : Scanned code scan) (hsite : scan.patches[n]? = some site)
    (hrel : Relocated n site patch code scan code' scan') (hpatch : patch.toNat < 2 ^ 28) :
    Scanned code' scan' :=
  ⟨h.faithful_relocated hsite hrel hpatch, hrel.wellLaidOut h.wellLaidOut hsite hpatch,
    h.apart_relocated hsite hrel hpatch⟩

end Step

/-! ## Any number of splices -/

theorem Scanned.run {start state : Bytes × PatchScan} (h : Scanned start.1 start.2)
    (hrun : Relation.ReflTransGen Splices start state) :
    Scanned state.1 state.2 ∧ state.2.isDynamic = start.2.isDynamic := by
  induction hrun with
  | refl => exact ⟨h, rfl⟩
  | tail _ hstep ih =>
    obtain ⟨n, patch, hpatch, hsize, hsplice⟩ := hstep
    obtain ⟨hscanned, hdynamic⟩ := ih
    obtain ⟨site, hsite, hrel, -⟩ := hscanned.wellLaidOut.splices hpatch hsize hsplice
    exact ⟨hscanned.relocated hsite hrel hpatch, hrel.isDynamic.trans hdynamic⟩

/-- What a scan told is told again, in what order ever. -/
theorem Scanned.rescan (h : Scanned code scan) :
    ∃ scan', scanPatches code = .ok scan' ∧ (∀ s, s ∈ scan'.patches ↔ s ∈ scan.patches) ∧
      scan'.isDynamic = scan.isDynamic := by
  obtain ⟨scan', hscan⟩ := scanPatches_ok h.faithful.visits
  have hfaithful := faithful_of_scan hscan
  refine ⟨scan', hscan, fun s => ?_, ?_⟩
  · rw [hfaithful.patches, h.faithful.patches]
  · rw [Bool.eq_iff_iff, hfaithful.isDynamic, h.faithful.isDynamic]

end PatchScan

end SoundArchive
