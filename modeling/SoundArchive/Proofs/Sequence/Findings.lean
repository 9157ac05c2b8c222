import SoundArchive.Proofs.Sequence.Walk
import SoundArchive.Proofs.Traversal

/-!
# A scan records what the commands that it reaches have

It visits each of them once. So it records nothing else, and it fails only where one of them
cannot be visited.
-/

namespace SoundArchive

namespace PatchScan

/-- A scan reaches the command at `p` and finds `f` there. -/
def Finds (code : Bytes) (p : Nat) (f : Finding) : Prop :=
  Reached code p ∧ ∃ v, visit code p = .ok v ∧ v.finding = f

/-- What is recorded is what is found. -/
structure Faithful (scan : PatchScan) (code : Bytes) : Prop where
  visits : ∀ p, Reached code p → ∃ v, visit code p = .ok v
  patches : ∀ site, site ∈ scan.patches ↔ ∃ p, Finds code p (.patch site)
  branches : ∀ operand, operand ∈ scan.branches ↔ ∃ p target, Finds code p (.branch operand target)
  isDynamic : scan.isDynamic = true ↔ ∃ p, Finds code p .computed

/-! ## The walk -/

def findingAt? (code : Bytes) (p : Nat) : Option Finding :=
  (visit code p).toOption.map (·.finding)

def Finding.patch? : Finding → Option PatchSite
  | .patch site => some site
  | _ => none

def Finding.branch? : Finding → Option Nat
  | .branch operand _ => some operand
  | _ => none

/-- The state of a walk that visited `visited`, the latest first. -/
structure Walked (code : Bytes) (seen : Vector Bool code.size) (pending : List Nat)
    (scan : PatchScan) (visited : List Nat) : Prop where
  nodup : visited.Nodup
  seen : ∀ p, p ∈ visited ↔ seen[p]? = some true
  reached : ∀ p ∈ visited, Reached code p
  pending : ∀ p ∈ pending, Reached code p
  patches : scan.patches = (visited.filterMap (findingAt? code)).filterMap Finding.patch?
  branches : scan.branches = (visited.filterMap (findingAt? code)).filterMap Finding.branch?
  isDynamic : scan.isDynamic = true ↔ Finding.computed ∈ visited.filterMap (findingAt? code)

variable {code : Bytes} {seen : Vector Bool code.size} {rest visited : List Nat}
  {scan : PatchScan} {p : Nat}

theorem Walked.skip (h : Walked code seen (p :: rest) scan visited) :
    Walked code seen rest scan visited :=
  { h with pending := fun q hq => h.pending q (List.mem_cons_of_mem _ hq) }

theorem patches_record (scan : PatchScan) (f : Finding) :
    (scan.record f).patches = f.patch?.toList ++ scan.patches := by
  cases f <;> rfl

theorem branches_record (scan : PatchScan) (f : Finding) :
    (scan.record f).branches = f.branch?.toList ++ scan.branches := by
  cases f <;> rfl

theorem isDynamic_record (scan : PatchScan) (f : Finding) :
    (scan.record f).isDynamic = true ↔ f = .computed ∨ scan.isDynamic = true := by
  cases f <;> simp [record]

theorem Walked.visit {v : Visit} (h : Walked code seen (p :: rest) scan visited)
    (hlt : p < code.size) (hp : ¬ seen[p] = true) (hv : PatchScan.visit code p = .ok v) :
    Walked code (seen.set p true) (v.successors ++ rest) (scan.record v.finding)
      (p :: visited) := by
  have hreached := h.pending p List.mem_cons_self
  have hfinding : findingAt? code p = some v.finding := by simp [findingAt?, hv, Except.toOption]
  have hfindings : (p :: visited).filterMap (findingAt? code)
      = v.finding :: visited.filterMap (findingAt? code) := List.filterMap_cons_some hfinding
  constructor
  case nodup =>
    refine List.nodup_cons.2 ⟨fun hmem => hp ?_, h.nodup⟩
    have := (h.seen p).1 hmem
    rwa [Vector.getElem?_eq_getElem hlt, Option.some.injEq] at this
  case seen =>
    intro q
    rw [List.mem_cons, h.seen q, Vector.getElem?_set]
    split
    · next hpq => simp [hpq]
    · next hpq => simp [Ne.symm hpq]
  case reached =>
    intro q hq
    rcases List.mem_cons.1 hq with rfl | hq
    · exact hreached
    · exact h.reached q hq
  case pending =>
    intro q hq
    rcases List.mem_append.1 hq with hq | hq
    · exact .next hreached hv hq
    · exact h.pending q (List.mem_cons_of_mem _ hq)
  case patches =>
    rw [patches_record, hfindings, h.patches, List.filterMap_cons]
    cases v.finding.patch? <;> rfl
  case branches =>
    rw [branches_record, hfindings, h.branches, List.filterMap_cons]
    cases v.finding.branch? <;> rfl
  case isDynamic => rw [isDynamic_record, hfindings, h.isDynamic, List.mem_cons, eq_comm]

theorem walked_start (code : Bytes) :
    Walked code (Vector.replicate code.size false) [0] {} [] where
  nodup := List.nodup_nil
  seen p := by
    rw [Vector.getElem?_replicate]
    split <;> simp
  reached := by simp
  pending p hp := by
    rw [List.mem_singleton.1 hp]
    exact .start
  patches := rfl
  branches := rfl
  isDynamic := by simp

/-- A walk fails where a command that it reaches cannot be visited. -/
theorem reached_of_explore_error {pending : List Nat} {e : EndOfData}
    (hpending : ∀ p ∈ pending, Reached code p) (h : explore code seen pending scan = .error e) :
    ∃ p, Reached code p ∧ PatchScan.visit code p = .error e := by
  fun_induction explore code seen pending scan with
  | case1 seen scan => cases h
  | case2 seen scan p rest hlt hseen ih =>
    exact ih (fun q hq => hpending q (List.mem_cons_of_mem _ hq)) h
  | case3 seen scan p rest hlt hseen e' hv =>
    cases h
    exact ⟨p, hpending p List.mem_cons_self, hv⟩
  | case4 seen scan p rest hlt hseen v hv ih =>
    refine ih (fun q hq => ?_) h
    rcases List.mem_append.1 hq with hq | hq
    · exact .next (hpending p List.mem_cons_self) hv hq
    · exact hpending q (List.mem_cons_of_mem _ hq)
  | case5 seen scan p rest hlt =>
    cases h
    refine ⟨p, hpending p List.mem_cons_self, ?_⟩
    unfold PatchScan.visit
    rw [dif_neg hlt]

/-! ## The scan -/

theorem reached_of_scan_error {e : EndOfData} (h : scanPatches code = .error e) :
    ∃ p, Reached code p ∧ PatchScan.visit code p = .error e := by
  unfold scanPatches at h
  cases hfound : explore code (Vector.replicate code.size false) [0] {} with
  | error e' =>
    rw [hfound] at h
    cases h
    exact reached_of_explore_error (fun p hp => List.mem_singleton.1 hp ▸ .start) hfound
  | ok found =>
    rw [hfound] at h
    cases h

theorem scanPatches_ok (hvisits : ∀ p, Reached code p → ∃ v, PatchScan.visit code p = .ok v) :
    ∃ scan, scanPatches code = .ok scan := by
  cases hscan : scanPatches code with
  | ok scan => exact ⟨scan, rfl⟩
  | error e =>
    obtain ⟨p, hp, he⟩ := reached_of_scan_error hscan
    obtain ⟨v, hv⟩ := hvisits p hp
    rw [he] at hv
    cases hv

/-- The positions that a scan visited are those that it reaches, each once. -/
theorem visited_of_scan (h : scanPatches code = .ok scan) :
    ∃ visited : List Nat, visited.Nodup ∧ (∀ p, p ∈ visited ↔ Reached code p) ∧
      scan.patches.Perm ((visited.filterMap (findingAt? code)).filterMap Finding.patch?) ∧
      scan.branches
        = ascending ((visited.filterMap (findingAt? code)).filterMap Finding.branch?) ∧
      (scan.isDynamic = true ↔ Finding.computed ∈ visited.filterMap (findingAt? code)) := by
  unfold scanPatches at h
  obtain ⟨found, hfound, h⟩ := bind_eq_ok.1 h
  cases h
  obtain ⟨seen, hexplored, visited, hwalked⟩ := explore_keeps
    (fun seen pending scan =>
      Explored code seen pending scan ∧ ∃ visited, Walked code seen pending scan visited)
    (fun hseen ⟨hexplored, _, hwalked⟩ => ⟨hexplored.skip hseen, _, hwalked.skip⟩)
    (fun hlt hunseen hv ⟨hexplored, _, hwalked⟩ =>
      ⟨hexplored.visit hlt hv, _, hwalked.visit hlt hunseen hv⟩)
    ⟨explored_start code, [], walked_start code⟩ hfound
  have hall : ∀ p, Reached code p → p ∈ visited :=
    fun p hp => (hwalked.seen p).2 (hexplored.seen_of_reached hp)
  refine ⟨visited, hwalked.nodup, fun p => ⟨hwalked.reached p, hall p⟩, ?_, ?_, hwalked.isDynamic⟩
  · rw [← hwalked.patches]
    exact List.mergeSort_perm ..
  · rw [← hwalked.branches]
    rfl

theorem mem_findings {visited : List Nat} {f : Finding}
    (hvisited : ∀ p, p ∈ visited ↔ Reached code p) :
    f ∈ visited.filterMap (findingAt? code) ↔ ∃ p, Finds code p f := by
  simp only [List.mem_filterMap, hvisited, Finds, findingAt?, Option.map_eq_some_iff,
    toOption_eq_some]

theorem branches_pairwise_lt (h : scanPatches code = .ok scan) :
    scan.branches.Pairwise (· < ·) := by
  obtain ⟨visited, -, -, -, hbranches, -⟩ := visited_of_scan h
  rw [hbranches]
  exact ascending_pairwise_lt _

theorem faithful_of_scan (h : scanPatches code = .ok scan) : scan.Faithful code := by
  obtain ⟨visited, -, hvisited, hpatches, hbranches, hdynamic⟩ := visited_of_scan h
  constructor
  case visits =>
    intro p hp
    obtain ⟨v, hv, -⟩ := visit_of_reached h hp
    exact ⟨v, hv⟩
  case patches =>
    intro site
    rw [hpatches.mem_iff, List.mem_filterMap]
    simp only [mem_findings hvisited]
    constructor
    · rintro ⟨f, hf, hsite⟩
      cases f <;> cases hsite
      exact hf
    · intro hf
      exact ⟨_, hf, rfl⟩
  case branches =>
    intro operand
    rw [hbranches, mem_ascending, List.mem_filterMap]
    simp only [mem_findings hvisited]
    constructor
    · rintro ⟨f, hf, hoperand⟩
      cases f <;> cases hoperand
      obtain ⟨p, hf⟩ := hf
      exact ⟨p, _, hf⟩
    · rintro ⟨p, target, hf⟩
      exact ⟨_, ⟨p, hf⟩, rfl⟩
  case isDynamic => rw [hdynamic, mem_findings hvisited]

end PatchScan

end SoundArchive
