import SoundArchive.Collect.Instruments
import SoundArchive.Proofs.Collect.Selection
import SoundArchive.Proofs.Sequence.Rescanning

/-! # The patches of a sequence are renumbered by a run of splices -/

namespace SoundArchive

open Bytecode PatchScan

namespace Sequence

/-! ## The loop over the sites -/

/-- What the loop does at one site. -/
def renumberSite (selection : Selection) (state : Bytes × PatchScan) (site : PatchSite × Nat) :
    Except SpliceError (Bytes × PatchScan) :=
  let new := selection.renumber site.1.patch.toNat
  if new = site.1.patch.toNat then .ok state
  else
    match splice state.1 state.2 site.2 new.toUInt32 with
    | (state, .ok ()) => .ok state
    | (_, .error e) => .error e

theorem renumberPatches_eq (selection : Selection) (code : Bytes) (scan : PatchScan) :
    renumberPatches selection code scan =
      Prod.fst <$> scan.patches.zipIdx.foldlM (renumberSite selection) (code, scan) := by
  rfl

variable {selection : Selection} {state state' final : Bytes × PatchScan}

/-- A site keeps its patch, or a splice gives it the new one. -/
theorem renumberSite_eq_ok {site : PatchSite} {n : Nat}
    (h : renumberSite selection state (site, n) = .ok state') :
    (selection.renumber site.patch.toNat = site.patch.toNat ∧ state' = state) ∨
      splice state.1 state.2 n (selection.renumber site.patch.toNat).toUInt32
        = (state', .ok ()) := by
  unfold renumberSite at h
  simp only at h
  split at h
  · next hsame =>
    cases h
    exact .inl ⟨hsame, rfl⟩
  · split at h
    · next hsplice =>
      cases h
      exact .inr hsplice
    · cases h

theorem renumberSite_run {site : PatchSite} {front rest : List UInt32}
    (hlaid : state.2.WellLaidOut state.1)
    (hpatches : state.2.patches.map (·.patch) = front ++ site.patch :: rest)
    (hbits : selection.renumber site.patch.toNat < 2 ^ 28) (hsize : state.1.size + 3 < 2 ^ 64)
    (h : renumberSite selection state (site, front.length) = .ok state') :
    Relation.ReflTransGen Splices state state' ∧ state'.1.size ≤ state.1.size + 3 ∧
      state'.2.patches.map (·.patch)
        = front ++ (selection.renumber site.patch.toNat).toUInt32 :: rest := by
  rcases renumberSite_eq_ok h with ⟨hsame, rfl⟩ | hsplice
  · refine ⟨.refl, by omega, ?_⟩
    rw [hsame, hpatches]
    simp
  · have hnew : (selection.renumber site.patch.toNat).toUInt32.toNat < 2 ^ 28 := by
      rwa [Bytes.toNat_toUInt32 (by omega)]
    cases hsite : state.2.patches[front.length]? with
    | none => simp [splice, hsite] at hsplice
    | some old =>
      have hgrown := hlaid.size_of_splice hsite hsplice
      have hlength := hlaid.length_pos (List.mem_of_getElem? hsite)
      have hnumber := length_encodeNumber_le hnew
      unfold maxNumberLength at hnumber
      obtain ⟨_, -, hrel, -⟩ := hlaid.splices hnew (by omega) hsplice
      refine ⟨.single ⟨_, _, hnew, by omega, hsplice⟩, by omega, ?_⟩
      rw [hrel.map_patch, hpatches]
      simp

/-- The loop is a run of splices that gives every site its new patch. -/
theorem run_of_foldlM {sites : List PatchSite} {front : List UInt32}
    (hlaid : state.2.WellLaidOut state.1)
    (hpatches : state.2.patches.map (·.patch) = front ++ sites.map (·.patch))
    (hbits : ∀ s ∈ sites, selection.renumber s.patch.toNat < 2 ^ 28)
    (hsize : state.1.size + 3 * sites.length < 2 ^ 64)
    (h : (sites.zipIdx front.length).foldlM (renumberSite selection) state = .ok final) :
    Relation.ReflTransGen Splices state final ∧ final.2.patches.map (·.patch)
      = front ++ sites.map fun s => (selection.renumber s.patch.toNat).toUInt32 := by
  induction sites generalizing state front with
  | nil =>
    cases h
    exact ⟨.refl, hpatches⟩
  | cons site rest ih =>
    rw [List.zipIdx_cons, List.foldlM_cons] at h
    obtain ⟨next, hnext, h⟩ := bind_eq_ok.1 h
    rw [List.length_cons] at hsize
    obtain ⟨hstep, hgrown, hpatches'⟩ := renumberSite_run hlaid hpatches
      (hbits site List.mem_cons_self) (by omega) hnext
    rw [List.append_cons] at hpatches'
    have hlength : front.length + 1
        = (front ++ [(selection.renumber site.patch.toNat).toUInt32]).length := by simp
    rw [hlength] at h
    obtain ⟨hrun, hfinal⟩ := ih (hlaid.run hstep) hpatches'
      (fun s hs => hbits s (List.mem_cons_of_mem _ hs)) (by omega) h
    refine ⟨hstep.trans hrun, ?_⟩
    rw [hfinal, List.map_cons, List.append_assoc, List.singleton_append]

end Sequence

namespace PatchScan

variable {code code' : Bytes} {scan : PatchScan} {selection : Selection}

theorem toNat_lt_of_mem_patches (h : scanPatches code = .ok scan) {site : PatchSite}
    (hsite : site ∈ scan.patches) : site.patch.toNat < 2 ^ 28 := by
  obtain ⟨p, hfinds⟩ := ((faithful_of_scan h).patches site).1 hsite
  obtain ⟨v, -, -, -, -, -, -, hread⟩ := hfinds.sound
  exact Bytecode.readNumber_lt hread

/-- Sites that lie apart in bytecode are no more than it has bytes. -/
theorem WellLaidOut.length_patches_le (h : scan.WellLaidOut code) :
    scan.patches.length ≤ code.size := by
  have hnodup : (scan.patches.map (·.operand)).Nodup := by
    have hsites := (List.pairwise_append.1 h.apart).1
    rw [List.pairwise_map] at hsites
    refine List.pairwise_map.2 (hsites.imp_of_mem fun {s t} hs ht hapart heq => ?_)
    have hs' := h.length_pos hs
    have ht' := h.length_pos ht
    have hso := h.ordered s hs
    have hto := h.ordered t ht
    simp only [Span.Apart, PatchSite.span] at hapart
    omega
  have hlt : ∀ operand ∈ scan.patches.map (·.operand), operand < code.size := by
    intro operand hoperand
    obtain ⟨site, hsite, rfl⟩ := List.mem_map.1 hoperand
    have := h.site_inside hsite
    have := h.length_pos hsite
    omega
  simpa using Selection.length_le_of_nodup hnodup hlt

/-- Sites that lie apart are renumbered by a run of splices. -/
theorem WellLaidOut.run_of_renumberPatches (h : scan.WellLaidOut code)
    (hbits : ∀ site ∈ scan.patches, selection.renumber site.patch.toNat < 2 ^ 28)
    (hsize : code.size + 3 * scan.patches.length < 2 ^ 64)
    (hok : Sequence.renumberPatches selection code scan = .ok code') :
    ∃ scan', Relation.ReflTransGen Splices (code, scan) (code', scan') ∧
      scan'.patches.map (·.patch)
        = scan.patches.map fun s => (selection.renumber s.patch.toNat).toUInt32 := by
  rw [Sequence.renumberPatches_eq] at hok
  obtain ⟨final, hfinal, rfl⟩ := map_eq_ok.1 hok
  obtain ⟨hrun, hpatches⟩ := Sequence.run_of_foldlM h (List.nil_append _).symm hbits hsize hfinal
  exact ⟨final.2, hrun, hpatches⟩

end PatchScan

/-! ## Every splice of a run -/

/-- From bytecode whose recorded parts lie well, every splice of every run relocates exactly and
leaves the parts lying well. The loop over all sites is such a run. -/
theorem splices_relocate {code : Bytes} {scan : PatchScan} (h : scan.WellLaidOut code) :
    (∀ state, Relation.ReflTransGen Splices (code, scan) state →
      ∀ n patch state', patch.toNat < 2 ^ 28 → state'.1.size < 2 ^ 64 →
      splice state.1 state.2 n patch = (state', .ok ()) →
      ∃ site, state.2.patches[n]? = some site ∧
        Relocated n site patch state.1 state.2 state'.1 state'.2 ∧
        state'.2.WellLaidOut state'.1) ∧
    (∀ selection code', (∀ s ∈ scan.patches, selection.renumber s.patch.toNat < 2 ^ 28) →
      code.size + 3 * scan.patches.length < 2 ^ 64 →
      Sequence.renumberPatches selection code scan = .ok code' →
      ∃ scan', Relation.ReflTransGen Splices (code, scan) (code', scan') ∧
        scan'.patches.map (·.patch)
          = scan.patches.map fun s => (selection.renumber s.patch.toNat).toUInt32) := by
  constructor
  · intro state hrun n patch state' hpatch hsize hsplice
    exact (WellLaidOut.run h hrun).splices hpatch hsize hsplice
  · intro selection code' hbits hsize hloop
    exact h.run_of_renumberPatches hbits hsize hloop

/-- Patch 128, a note, patch 129, and a jump back to the note. -/
def noteLoop : Bytes :=
  #[0x81, 0x81, 0x00, 0x3C, 0x64, 0x30, 0x81, 0x81, 0x01, 0x94, 0x03, 0x00, 0x00]

def noteLoopScan : PatchScan :=
  { patches := [⟨0, 1, 2, 128⟩, ⟨6, 7, 2, 129⟩], branches := [10] }

theorem wellLaidOut_noteLoop : noteLoopScan.WellLaidOut noteLoop where
  inside := by decide
  apart := by decide
  ordered := by decide
  reads := by decide
  targets := by
    intro b hb t ht
    cases List.mem_singleton.1 hb
    cases ht
    decide

/-- After patch 1 took the place of patch 128, one byte shorter. -/
def noteLoopShrunk : Bytes × PatchScan :=
  (#[0x81, 0x01, 0x3C, 0x64, 0x30, 0x81, 0x81, 0x01, 0x94, 0x02, 0x00, 0x00],
    { patches := [⟨0, 1, 1, 1⟩, ⟨5, 6, 2, 129⟩], branches := [9] })

theorem splices_relocate_noteLoop :
    noteLoopScan.WellLaidOut noteLoop ∧
    (∃ site, noteLoopScan.patches[0]? = some site ∧
      Relocated 0 site 1 noteLoop noteLoopScan noteLoopShrunk.1 noteLoopShrunk.2 ∧
      noteLoopShrunk.2.WellLaidOut noteLoopShrunk.1) ∧
    ∃ scan', Relation.ReflTransGen Splices (noteLoop, noteLoopScan)
        (#[0x81, 0x00, 0x3C, 0x64, 0x30, 0x81, 0x01, 0x94, 0x02, 0x00, 0x00], scan') ∧
      scan'.patches.map (·.patch) = [0, 1] := by
  obtain ⟨hrun, hloop⟩ := splices_relocate wellLaidOut_noteLoop
  refine ⟨wellLaidOut_noteLoop, ?_, ?_⟩
  · exact hrun _ .refl 0 1 noteLoopShrunk (by decide) (by decide) (by decide +kernel)
  · exact hloop ⟨[128, 129], [128, 129]⟩ _ (by decide) (by decide) (by decide +kernel)

end SoundArchive
