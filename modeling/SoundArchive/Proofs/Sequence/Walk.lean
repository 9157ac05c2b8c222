import SoundArchive.Proofs.Ascending
import SoundArchive.Proofs.Traversal
import SoundArchive.Sequence.PatchScan

/-! # The walk of a scan is closed: what it reaches was visited, and what was found is recorded -/

namespace SoundArchive

namespace PatchScan

/-- The offsets that a scan comes to: the start of the bytecode, and from each of them the
successors of the command there. -/
inductive Reached (code : Bytes) : Nat → Prop where
  | start : Reached code 0
  | next {p q : Nat} {v : Visit} (hp : Reached code p) (hv : visit code p = .ok v)
      (hq : q ∈ v.successors) : Reached code q

/-- What a scan has recorded of a finding. -/
def Records (scan : PatchScan) : Finding → Prop
  | .nothing => True
  | .patch site => site ∈ scan.patches
  | .branch operand _ => operand ∈ scan.branches
  | .computed => scan.isDynamic = true

theorem records_record (scan : PatchScan) (f : Finding) : (scan.record f).Records f := by
  cases f <;> simp [record, Records]

theorem Records.record {scan : PatchScan} {f : Finding} (h : scan.Records f) (g : Finding) :
    (scan.record g).Records f := by
  cases f <;> cases g <;> simp_all [PatchScan.record, Records]

theorem Records.ordered {scan : PatchScan} {f : Finding} (h : scan.Records f) :
    scan.ordered.Records f := by
  cases f <;> simp_all [PatchScan.ordered, Records]

/-! ## The walk -/

/-- The state of a walk: every command seen was recorded, and it leads to what is seen too or
still pending. -/
structure Explored (code : Bytes) (seen : Vector Bool code.size) (pending : List Nat)
    (scan : PatchScan) : Prop where
  start : seen[0]? = some true ∨ 0 ∈ pending
  closed : ∀ p, seen[p]? = some true → ∃ v, visit code p = .ok v ∧ scan.Records v.finding ∧
    ∀ q ∈ v.successors, seen[q]? = some true ∨ q ∈ pending

variable {code : Bytes} {seen : Vector Bool code.size} {rest : List Nat} {scan : PatchScan}
  {p : Nat}

theorem Explored.skip (h : Explored code seen (p :: rest) scan) (hp : seen[p]? = some true) :
    Explored code seen rest scan := by
  have hdrop : ∀ {q : Nat}, seen[q]? = some true ∨ q ∈ p :: rest →
      seen[q]? = some true ∨ q ∈ rest := by
    intro q hq
    rcases hq with hq | hq
    · exact .inl hq
    · rcases List.mem_cons.1 hq with rfl | hq
      · exact .inl hp
      · exact .inr hq
  refine ⟨hdrop h.start, ?_⟩
  intro r hr
  obtain ⟨v, hv, hrec, hsucc⟩ := h.closed r hr
  exact ⟨v, hv, hrec, fun q hq => hdrop (hsucc q hq)⟩

theorem Explored.visit {v : Visit} (h : Explored code seen (p :: rest) scan)
    (hlt : p < code.size) (hv : PatchScan.visit code p = .ok v) :
    Explored code (seen.set p true) (v.successors ++ rest) (scan.record v.finding) := by
  have hset : ∀ {q : Nat}, seen[q]? = some true → (seen.set p true)[q]? = some true := by
    intro q hq
    rw [Vector.getElem?_set]
    split
    · rfl
    · exact hq
  have hself : (seen.set p true)[p]? = some true := by simp [hlt]
  have hmove : ∀ {q : Nat}, seen[q]? = some true ∨ q ∈ p :: rest →
      (seen.set p true)[q]? = some true ∨ q ∈ v.successors ++ rest := by
    intro q hq
    rcases hq with hq | hq
    · exact .inl (hset hq)
    · rcases List.mem_cons.1 hq with rfl | hq
      · exact .inl hself
      · exact .inr (List.mem_append_right _ hq)
  refine ⟨hmove h.start, ?_⟩
  intro r hr
  by_cases hpr : p = r
  · subst hpr
    exact ⟨v, hv, records_record _ _, fun q hq => .inr (List.mem_append_left _ hq)⟩
  · have hold : seen[r]? = some true := by
      rwa [Vector.getElem?_set_ne _ hpr] at hr
    obtain ⟨w, hw, hrec, hsucc⟩ := h.closed r hold
    exact ⟨w, hw, hrec.record _, fun q hq => hmove (hsucc q hq)⟩

/-- What is kept by every step of a walk holds at its end, where nothing is pending. -/
theorem explore_keeps (Inv : Vector Bool code.size → List Nat → PatchScan → Prop)
    (hskip : ∀ {seen p rest scan}, seen[p]? = some true → Inv seen (p :: rest) scan →
      Inv seen rest scan)
    (hvisit : ∀ {seen p rest scan v} (hlt : p < code.size), ¬ seen[p] = true →
      PatchScan.visit code p = .ok v → Inv seen (p :: rest) scan →
      Inv (seen.set p true) (v.successors ++ rest) (scan.record v.finding))
    {pending : List Nat} {final : PatchScan} (hinv : Inv seen pending scan)
    (h : explore code seen pending scan = .ok final) :
    ∃ seen' : Vector Bool code.size, Inv seen' [] final := by
  fun_induction explore code seen pending scan with
  | case1 seen scan =>
    cases h
    exact ⟨seen, hinv⟩
  | case2 seen scan p rest hlt hseen ih => exact ih (hskip (by simp [hlt, hseen]) hinv) h
  | case3 seen scan p rest hlt hseen e hv => cases h
  | case4 seen scan p rest hlt hseen v hv ih => exact ih (hvisit hlt hseen hv hinv) h
  | case5 seen scan p rest hlt => cases h

theorem explored_start (code : Bytes) :
    Explored code (Vector.replicate code.size false) [0] {} where
  start := .inr List.mem_cons_self
  closed p hp := by
    rw [Vector.getElem?_replicate] at hp
    split at hp <;> simp at hp

/-- Where nothing is pending, all was seen that is reached. -/
theorem Explored.seen_of_reached (h : Explored code seen [] scan) (hp : Reached code p) :
    seen[p]? = some true := by
  induction hp with
  | start => exact h.start.resolve_right (by simp)
  | next _ hv hq ih =>
    obtain ⟨w, hw, -, hsucc⟩ := h.closed _ ih
    rw [hv] at hw
    cases hw
    exact (hsucc _ hq).resolve_right (by simp)

/-! ## The scan -/

/-- A scan visited every offset that it reaches, and recorded what it found there. -/
theorem visit_of_reached {code : Bytes} {scan : PatchScan} {p : Nat}
    (h : scanPatches code = .ok scan) (hp : Reached code p) :
    ∃ v, PatchScan.visit code p = .ok v ∧ scan.Records v.finding := by
  obtain ⟨found, hfound, h⟩ := bind_eq_ok.1 h
  cases h
  obtain ⟨seen, hexplored⟩ := explore_keeps (Explored code)
    (fun hseen hinv => hinv.skip hseen) (fun hlt _ hv hinv => hinv.visit hlt hv)
    (explored_start code) hfound
  obtain ⟨v, hv, hrec, _⟩ := hexplored.closed p (hexplored.seen_of_reached hp)
  exact ⟨v, hv, hrec.ordered⟩

theorem mem_usedPatches_iff {scan : PatchScan} {patch : UInt32} :
    patch ∈ scan.usedPatches ↔ ∃ site ∈ scan.patches, site.patch = patch := by
  rw [usedPatches, mem_ascending, List.mem_map]

theorem mem_usedPatches {scan : PatchScan} {site : PatchSite} (h : site ∈ scan.patches) :
    site.patch ∈ scan.usedPatches :=
  mem_usedPatches_iff.2 ⟨site, h, rfl⟩

end PatchScan

end SoundArchive
