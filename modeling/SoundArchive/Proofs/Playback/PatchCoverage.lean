import SoundArchive.Proofs.Playback.Foresight
import SoundArchive.Proofs.Playback.Run
import SoundArchive.Proofs.Sequence.Walk
import Mathlib

/-! # The patches that a player selects are those that a scan finds -/

namespace SoundArchive

open PatchScan

/-! ## Commands within a scan -/

namespace PatchScan

variable {code : Bytes} {p : Nat} {v : Visit}

theorem reached_behind (hp : Reached code p) (hv : visit code p = .ok v)
    (hfall : v.fallsThrough = true) : Reached code v.behind :=
  .next hp hv (by simp [Visit.successors, hfall])

theorem reached_target {operand target : Nat} (hp : Reached code p) (hv : visit code p = .ok v)
    (hfinding : v.finding = .branch operand target) : Reached code target := by
  refine .next hp hv ?_
  simp only [Visit.successors, hfinding]
  split <;> simp

theorem fallsThrough_of_conditional {q : Nat} {inner : Command} (hv : visit code p = .ok v)
    (hc : Command.read code p = .ok (.conditional inner, q)) : v.fallsThrough = true := by
  obtain ⟨h, hop, -⟩ := Command.read_inv hc
  rw [visit, dif_pos h, hop] at hv
  obtain ⟨w, -, hv⟩ := bind_eq_ok.1 hv
  cases hv
  rfl

end PatchScan

def Frame.back : Frame → Nat
  | .call back => back
  | .loop _ back => back

namespace Control

/-- Goes on behind a return that has no call to go back to, where no scan comes. -/
def Overruns (code : Bytes) (c : Control) : Prop :=
  IsReturn code c.position ∧ (∀ back rest, c.stack ≠ .call back :: rest) ∧
    ¬ Reached code (c.position + 1)

/-- A track that is where its scan comes, will go back to such places only, and has selected no
other patch than the scan found. -/
structure Covered (code : Bytes) (scan : PatchScan) (c : Control) : Prop where
  position : c.ended = false → Reached code c.position
  frames : ∀ f ∈ c.stack, Reached code f.back
  patch : c.patch = 0 ∨ c.patch ∈ scan.usedPatches

variable {code : Bytes} {scan : PatchScan} {c : Control}

theorem Covered.call {target : Nat} (hc : Covered code scan c) (hended : c.ended = false)
    (htarget : Reached code target) : Covered code scan (c.call target) := by
  unfold Control.call
  split
  · refine ⟨fun _ => htarget, ?_, hc.patch⟩
    intro f hf
    rcases List.mem_cons.1 hf with rfl | hf
    · exact hc.position hended
    · exact hc.frames f hf
  · exact hc

theorem Covered.loopStart {passes : UInt8} (hc : Covered code scan c) (hended : c.ended = false) :
    Covered code scan (c.loopStart passes) := by
  unfold Control.loopStart
  split
  · refine ⟨hc.position, ?_, hc.patch⟩
    intro f hf
    rcases List.mem_cons.1 hf with rfl | hf
    · exact hc.position hended
    · exact hc.frames f hf
  · exact hc

theorem Covered.loopEnd (hc : Covered code scan c) : Covered code scan c.loopEnd := by
  unfold Control.loopEnd
  split
  · next passes back rest hstack =>
    have hback : Reached code back :=
      hc.frames (.loop passes back) (hstack ▸ List.mem_cons_self)
    have hrest : ∀ f ∈ rest, Reached code f.back :=
      fun f hf => hc.frames f (hstack ▸ List.mem_cons_of_mem _ hf)
    split
    · exact ⟨fun _ => hback, hc.frames, hc.patch⟩
    · split
      · exact ⟨fun _ => hback, hrest, hc.patch⟩
      · refine ⟨fun _ => hback, ?_, hc.patch⟩
        intro f hf
        rcases List.mem_cons.1 hf with rfl | hf
        · exact hback
        · exact hrest f hf
  · exact hc

/-- A return leads behind a call, or else behind itself. -/
theorem Covered.ret {behind : Nat} (hc : Covered code scan c)
    (hbehind : (∀ back rest, c.stack ≠ .call back :: rest) → Reached code behind) :
    Covered code scan ({ c with position := behind } : Control).ret := by
  unfold Control.ret
  split
  · next back rest hstack =>
    have hstack : c.stack = .call back :: rest := hstack
    refine ⟨fun _ => hc.frames (.call back) (hstack ▸ List.mem_cons_self), ?_, hc.patch⟩
    exact fun f hf => hc.frames f (hstack ▸ List.mem_cons_of_mem _ hf)
  · next hnone => exact ⟨fun _ => hbehind hnone, hc.frames, hc.patch⟩

/-- Whether an instruction moves the track, or its frames, or selects a patch. -/
def Redirects : Opcode → Prop
  | .patch | .jump | .call | .ret | .loopStart | .loopEnd | .finish => True
  | _ => False

/-- The other instructions leave a track where it is. -/
theorem perform_of_not_redirects {i : Instruction} (c : Control) (s : Score)
    (h : ¬ Redirects i.opcode) :
    (c.perform s i).1.position = c.position ∧ (c.perform s i).1.stack = c.stack ∧
      (c.perform s i).1.patch = c.patch := by
  obtain ⟨op, first, second⟩ := i
  cases op
  case note | compare =>
    simp only [Control.perform]
    split <;> exact ⟨rfl, rfl, rfl⟩
  case patch | jump | call | ret | loopStart | loopEnd | finish => exact absurd trivial h
  all_goals exact ⟨rfl, rfl, rfl⟩

theorem fallsThrough_of_not_redirects {p : Nat} {v : Visit} {i : Instruction}
    (hi : Foresees code p v i) (h : ¬ Redirects i.opcode) : v.fallsThrough = true := by
  unfold Foresees at hi
  split at hi
  case h_6 => exact hi
  all_goals next hop => exact absurd trivial (by rwa [hop] at h)

theorem Covered.perform {v : Visit} {s : Score} {i : Instruction} (hc : Covered code scan c)
    (hended : c.ended = false) (hreturn : ¬ c.Overruns code)
    (hv : visit code c.position = .ok v) (hliteral : v.finding ≠ .computed)
    (hrec : scan.Records v.finding) (hi : Foresees code c.position v i) :
    Covered code scan (({ c with position := v.behind } : Control).perform s i).1 := by
  have hp := hc.position hended
  have hmoved : v.fallsThrough = true → Covered code scan { c with position := v.behind } :=
    fun hfall => ⟨fun _ => reached_behind hp hv hfall, hc.frames, hc.patch⟩
  by_cases h : Redirects i.opcode
  · unfold Redirects at h
    split at h
    · next hop =>
      simp only [Foresees, hop] at hi
      simp only [Control.perform, hop]
      obtain ⟨site, hsite, hpatch⟩ := hi.2.resolve_left hliteral
      rw [hsite] at hrec
      exact ⟨(hmoved hi.1).position, hc.frames, .inr (hpatch ▸ mem_usedPatches hrec)⟩
    · next hop =>
      simp only [Foresees, hop] at hi
      simp only [Control.perform, hop]
      obtain ⟨operand, hbranch⟩ := hi.resolve_left hliteral
      exact ⟨fun _ => reached_target hp hv hbranch, hc.frames, hc.patch⟩
    · next hop =>
      simp only [Foresees, hop] at hi
      simp only [Control.perform, hop]
      obtain ⟨operand, hbranch⟩ := hi.2.resolve_left hliteral
      exact (hmoved hi.1).call hended (reached_target hp hv hbranch)
    · next hop =>
      simp only [Foresees, hop] at hi
      simp only [Control.perform, hop]
      refine hc.ret fun hstack => ?_
      rcases hi with hfall | ⟨hret, hbehind⟩
      · exact reached_behind hp hv hfall
      · rw [hbehind]
        by_contra hout
        exact hreturn ⟨hret, hstack, hout⟩
    · next hop =>
      simp only [Foresees, hop] at hi
      simp only [Control.perform, hop]
      exact (hmoved hi).loopStart hended
    · next hop =>
      simp only [Foresees, hop] at hi
      simp only [Control.perform, hop]
      exact (hmoved hi).loopEnd
    · next hop =>
      simp only [Control.perform, hop]
      exact ⟨fun h => absurd h (by simp [Control.finish]), hc.frames, hc.patch⟩
    · exact h.elim
  · have hm := hmoved (fallsThrough_of_not_redirects hi h)
    obtain ⟨hposition, hstack, hpatch⟩ :=
      perform_of_not_redirects { c with position := v.behind } s h
    refine ⟨fun _ => ?_, ?_, ?_⟩
    · rw [hposition]
      exact hm.position hended
    · rw [hstack]
      exact hm.frames
    · rw [hpatch]
      exact hm.patch

theorem Covered.step (hscan : scanPatches code = .ok scan) (hstatic : scan.isDynamic = false)
    (hc : Covered code scan c) (hended : c.ended = false) (hreturn : ¬ c.Overruns code)
    (s : Score) : Covered code scan (c.step code s).1 := by
  have hp := hc.position hended
  obtain ⟨v, hv, hrec⟩ := visit_of_reached hscan hp
  obtain ⟨command, hread⟩ := read_of_visit hv
  have hliteral : v.finding ≠ .computed := by
    intro h
    rw [h] at hrec
    exact absurd hstatic (by simp [show scan.isDynamic = true from hrec])
  rcases hres : command.resolve c.condition s with ⟨_ | i, s'⟩
  · obtain ⟨inner, rfl⟩ := Command.conditional_of_resolve hres
    have hfall := fallsThrough_of_conditional hv hread
    rw [Control.step_of_skipped hread hres]
    exact ⟨fun _ => reached_behind hp hv hfall, hc.frames, hc.patch⟩
  · have hforesees := foresees_of_yields hv hread (Command.yields_of_resolve hres)
    rw [Control.step_of_performed hread hres]
    exact hc.perform hended hreturn hv hliteral hrec hforesees

theorem invariant_covered (hscan : scanPatches code = .ok scan)
    (hstatic : scan.isDynamic = false) :
    Invariant code (fun s => ¬ s.track.control.Overruns code) (Covered code scan) where
  step s hreturn hended hc := hc.step hscan hstatic hended hreturn s.score
  waited _ _ hc := ⟨hc.position, hc.frames, hc.patch⟩
  recorded _ hc := ⟨hc.position, hc.frames, hc.patch⟩

theorem covered_start {p : Nat} (hp : Reached code p) :
    Covered code scan { position := p } where
  position _ := hp
  frames _ hf := absurd hf List.not_mem_nil
  patch := .inl rfl

end Control

/-! ## The tracks that are opened -/

theorem PatchScan.visit_openTrack {code : Bytes} {p : Nat} {v : Visit}
    (hop : code[p]?.map Opcode.ofByte = some .openTrack) (hv : visit code p = .ok v) :
    v.fallsThrough = true ∧ ∃ target, Bytecode.readU24 code (p + 2) = .ok (target, v.behind) ∧
      v.finding = .branch (p + 2) target.toNat := by
  obtain ⟨b, hb, hop⟩ := Option.map_eq_some_iff.1 hop
  obtain ⟨h, rfl⟩ := Array.getElem?_eq_some_iff.1 hb
  rw [visit, dif_pos h, hop] at hv
  obtain ⟨⟨track, r⟩, htrack, hv⟩ := bind_eq_ok.1 hv
  obtain ⟨b, -, htrack⟩ := bind_eq_ok.1 htrack
  cases htrack
  obtain ⟨⟨target, behind⟩, ht, hv⟩ := bind_eq_ok.1 hv
  cases hv
  exact ⟨rfl, target, ht, rfl⟩

namespace Player

theorem reached_openings {code : Bytes} {scan : PatchScan} (hscan : scanPatches code = .ok scan)
    (room : Nat) {p : Nat} (hp : Reached code p) :
    (∀ start ∈ (openings code room p).1, Reached code start) ∧
      Reached code (openings code room p).2 := by
  induction room generalizing p with
  | zero => exact ⟨by simp [openings], hp⟩
  | succ room ih =>
    unfold openings
    split
    · next hop =>
      obtain ⟨v, hv, _⟩ := visit_of_reached hscan hp
      obtain ⟨hfall, target, ht, hfinding⟩ := visit_openTrack hop hv
      obtain ⟨hstarts, hlast⟩ := ih (reached_behind hp hv hfall)
      rw [ht]
      refine ⟨?_, hlast⟩
      intro start hstart
      rcases List.mem_cons.1 hstart with rfl | hstart
      · exact reached_target hp hv hfinding
      · exact hstarts start hstart
    · exact ⟨by simp, hp⟩

/-- A scan comes to the start of every track. -/
theorem reached_openedTracks {code : Bytes} {scan : PatchScan}
    (hscan : scanPatches code = .ok scan) :
    ∀ start ∈ (openedTracks code).2 :: (openedTracks code).1, Reached code start := by
  unfold openedTracks
  split
  · next hop =>
    obtain ⟨b, hb, hop⟩ := Option.map_eq_some_iff.1 hop
    obtain ⟨h, rfl⟩ := Array.getElem?_eq_some_iff.1 hb
    obtain ⟨v, hv, _⟩ := visit_of_reached hscan .start
    have hbehind : v.fallsThrough = true ∧ v.behind = 3 := by
      rw [visit, dif_pos h, hop] at hv
      change (Bytecode.skipBytes code 1 2 >>= _) = _ at hv
      unfold Bytecode.skipBytes at hv
      split at hv <;> cases hv
      exact ⟨rfl, rfl⟩
    have h3 : Reached code 3 := hbehind.2 ▸ reached_behind .start hv hbehind.1
    obtain ⟨hstarts, hlast⟩ := reached_openings hscan (maxTracks - 1) h3
    intro start hstart
    rcases List.mem_cons.1 hstart with rfl | hstart
    · exact hlast
    · exact hstarts start hstart
  · intro start hstart
    obtain rfl := List.mem_singleton.1 hstart
    exact .start

theorem covered_opened {code : Bytes} {scan : PatchScan} (hscan : scanPatches code = .ok scan)
    (setup : Setup) (track : Nat) :
    Control.Invariant.Holds (Control.Covered code scan) track (opened code setup).parts := by
  have hstart : Control.Invariant.Holds (Control.Covered code scan) track (start code).parts := by
    intro part hpart
    obtain ⟨⟨first, i⟩, hfirst, rfl⟩ := List.mem_map.1 (List.mem_of_getElem? hpart)
    have hmem := List.fst_mem_of_mem_zipIdx hfirst
    exact Control.covered_start (reached_openedTracks hscan first hmem)
  exact Control.Invariant.holds_mapVoices
    (f := fun v => { v with priority := Voice.basePriority setup.priority }) hstart

/-- A track that does not overrun a return plays the patch that it started with, or one that the
scan found, whatever the player is set up with and whatever is done with it. -/
theorem selectedPatch_mem_usedPatches {code : Bytes} {scan : PatchScan}
    (hscan : scanPatches code = .ok scan) (hstatic : scan.isDynamic = false) (setup : Setup)
    (actions : List Action) (track : Nat)
    (hreturns : ∀ s ∈ executed track (opened code setup) actions,
      ¬ s.track.control.Overruns code) :
    ∀ part, ((opened code setup).after actions).parts[track]? = some part →
      part.track.control.patch = 0 ∨ part.track.control.patch ∈ scan.usedPatches := by
  intro part hpart
  have hafter := (Control.invariant_covered hscan hstatic).after (p := opened code setup) rfl
    (covered_opened hscan setup track) hreturns
  exact (hafter part hpart).patch

/-- A call of a subroutine at 5 that selects patch 7 and returns. -/
theorem selectedPatch_of_call :
    let code : Bytes := #[0x95, 5, 0, 0, 0xFF, 0x81, 7, 0xFD]
    let scan : PatchScan := { patches := [⟨5, 6, 1, 7⟩], branches := [1] }
    let played := (opened code .silent).after [.tick, .tick, .tick, .tick]
    scanPatches code = .ok scan ∧ played.parts[0]?.map (·.track.control.patch) = some 7 ∧
      ((7 : UInt32) = 0 ∨ 7 ∈ scan.usedPatches) := by
  intro code scan played
  have hscan : scanPatches code = .ok scan := by cbv
  have hpatch : played.parts[0]?.map (·.track.control.patch) = some 7 := by decide +kernel
  have hcalled : ∀ c ∈ (executed 0 (opened code .silent) [.tick, .tick, .tick, .tick]).map
      (·.track.control), code[c.position]?.map Opcode.ofByte = some .ret →
        c.stack = [.call 4] := by
    decide +kernel
  obtain ⟨part, hpart, hseven⟩ := Option.map_eq_some_iff.1 hpatch
  have hcovered := selectedPatch_mem_usedPatches hscan rfl .silent [.tick, .tick, .tick, .tick] 0
    (fun s hs hstray => hstray.2.1 4 [] (hcalled _ (List.mem_map_of_mem hs) hstray.1)) part hpart
  exact ⟨hscan, hpatch, hseven ▸ hcovered⟩

/-- The patch behind a return that returns from no call is selected, but no scan finds it. -/
theorem selectedPatch_behind_stray_return :
    ¬ ∀ (code : Bytes) (scan : PatchScan), scanPatches code = .ok scan →
      scan.isDynamic = false →
      ∀ (setup : Setup) (actions : List Action) (track : Nat) (part : Part),
        ((opened code setup).after actions).parts[track]? = some part →
          part.track.control.patch = 0 ∨ part.track.control.patch ∈ scan.usedPatches := by
  intro h
  have hscan : scanPatches #[0xFD, 0x81, 5, 0xFF] = .ok {} := by cbv
  have hpatch : (((opened #[0xFD, 0x81, 5, 0xFF] .silent).after
      [.tick, .tick, .tick, .tick]).parts[0]?).map (·.track.control.patch) = some 5 := by
    decide +kernel
  obtain ⟨part, hpart, hfive⟩ := Option.map_eq_some_iff.1 hpatch
  rcases h _ _ hscan rfl _ _ _ part hpart with hzero | hused
  · rw [hfive] at hzero
    exact absurd hzero (by decide)
  · rw [PatchScan.usedPatches, mem_ascending] at hused
    exact absurd hused List.not_mem_nil

end Player

end SoundArchive
