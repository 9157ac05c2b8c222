import Mathlib.Tactic.IntervalCases
import SoundArchive.Proofs.Playback.Courses
import SoundArchive.Proofs.Playback.Execution

/-!
# How often the body of a counted loop is executed

Its frame is gone before the last pass, so the end that the last pass comes to is a matter of the
frame around the loop.
-/

namespace SoundArchive

open Bytecode

variable {code : Bytes} {p : Nat} {count passes : UInt8} {c : Control} {s : Score}

/-! ## Steps -/

theorem Command.read_loopStart (hp : code[p]? = some 0xD4) (hcount : code[p + 1]? = some count) :
    Command.read code p
      = .ok (.plain { opcode := .loopStart, first := count.toUInt32.toInt32 }, p + 2) := by
  obtain ⟨hlt, hbyte⟩ := Array.getElem?_eq_some_iff.1 hp
  have hop : Opcode.ofByte code[p] = .loopStart := by
    rw [hbyte]
    decide
  rw [Command.read_eq_plain hlt (by simp [hop]) (by simp [hop]) (by simp [hop]), hop]
  simp [Instruction.read, Instruction.readOperands, Opcode.operands, readU8, byteAt, hcount,
    Except.map]

theorem Command.read_loopEnd (hp : code[p]? = some 0xFC) :
    Command.read code p = .ok (.plain { opcode := .loopEnd }, p + 1) := by
  obtain ⟨hlt, hbyte⟩ := Array.getElem?_eq_some_iff.1 hp
  have hop : Opcode.ofByte code[p] = .loopEnd := by
    rw [hbyte]
    decide
  rw [Command.read_eq_plain hlt (by simp [hop]) (by simp [hop]) (by simp [hop]), hop]
  rfl

namespace Control

theorem spot_step_loopStart (hp : code[c.position]? = some 0xD4)
    (hcount : code[c.position + 1]? = some count) (hroom : c.stack.length < stackDepth) :
    (c.step code s).1.spot
      = ⟨c.position + 2, .loop count (c.position + 2) :: c.stack, c.ended⟩ := by
  rw [step_of_performed (Command.read_loopStart hp hcount) rfl]
  simp [perform, loopStart, hroom, spot]

theorem spot_loopEnd_congr {c c' : Control} (h : c.spot = c'.spot) :
    c.loopEnd.spot = c'.loopEnd.spot := by
  simp only [spot, Spot.mk.injEq] at h
  obtain ⟨hposition, hstack, hended⟩ := h
  unfold loopEnd
  rw [hstack]
  split
  · split
    · simp [spot, hended]
    · split <;> simp [spot, hended]
  · simp [spot, hposition, hstack, hended]

theorem spot_step_loopEnd (hp : code[c.position]? = some 0xFC) :
    (c.step code s).1.spot = ({ c with position := c.position + 1 } : Control).loopEnd.spot := by
  rw [step_of_performed (Command.read_loopEnd hp) rfl]
  rfl

/-- The end of a loop is passed where there is no loop around it, and where it makes no difference
to go back. -/
theorem spot_loopEnd_eq_iff : c.loopEnd.spot = c.spot ↔
    ∀ passes back, c.stack.head? = some (.loop passes back) → passes = 0 ∧ back = c.position := by
  unfold loopEnd
  split
  · next passes back rest hstack =>
    simp only [hstack, List.head?_cons, Option.some.injEq, Frame.loop.injEq, and_imp,
      forall_apply_eq_imp_iff, forall_eq']
    split
    · next hzero => simp [spot, hzero, hstack]
    · next hzero =>
      refine iff_of_false ?_ fun h => hzero h.1
      have hless : passes - 1 ≠ passes := by
        rw [Ne, UInt8.sub_eq_iff_eq_add]
        simp
      split <;> simp [spot, hstack, hless]
  · next hstack =>
    refine iff_of_true rfl fun passes back hhead => ?_
    obtain ⟨rest, hrest⟩ := List.head?_eq_some_iff.1 hhead
    exact absurd hrest (hstack passes back rest)

end Control

/-! ## Passes -/

/-- Has not ended, and is at `p` with these frames. -/
def Stand.IsAt (s : Stand) (p : Nat) (stack : List Frame) : Prop := s.spot = ⟨p, stack, false⟩

theorem Stand.isAt_iff {s : Stand} {stack : List Frame} : s.IsAt p stack ↔
    s.track.control.position = p ∧ s.track.control.stack = stack ∧
      s.track.control.ended = false := by
  simp [IsAt, spot, Control.spot]

/-- From `i` to `j` the body is executed once: from the start of the loop to its end, which is
reached there for the first time with the frames of the start. -/
structure Pass (x : Nat → Stand) (start close : Nat) (stack : List Frame) (i j : Nat) : Prop where
  le : i ≤ j
  starts : (x i).IsAt start stack
  closes : (x j).IsAt close stack
  first : ∀ k, i ≤ k → k < j → ¬ (x k).IsAt close stack

/-- From `i` to `j` the body is executed so many times, with an end of the loop in between. -/
inductive Passes (x : Nat → Stand) (start close : Nat) : Nat → Nat → Nat → Prop where
  | last {stack : List Frame} {i j : Nat} (h : Pass x start close stack i j) :
    Passes x start close 1 i j
  | more {stack : List Frame} {times i j k : Nat} (h : Pass x start close stack i j)
    (hrest : Passes x start close times (j + 1) k) : Passes x start close (times + 1) i k

/-- The body ends every pass that begins after `i` with the frames that it began with. -/
def Balanced (x : Nat → Stand) (start close : Nat) (stack : List Frame) (i : Nat) : Prop :=
  ∀ k, i < k → (x k).IsAt start stack → ∃ j, Pass x start close stack k j

namespace Course

variable {x : Nat → Stand} {i j k start close times : Nat} {stack : List Frame}

theorem loopStart (hx : Course code x) (hp : code[p]? = some 0xD4)
    (hcount : code[p + 1]? = some count) (hat : (x i).IsAt p stack)
    (hroom : stack.length < Control.stackDepth) :
    (x (i + 1)).IsAt (p + 2) (.loop count (p + 2) :: stack) := by
  obtain ⟨rfl, rfl, hended⟩ := Stand.isAt_iff.1 hat
  unfold Stand.IsAt
  rw [hx i, Stand.spot, Stand.step_control, Control.spot_step_loopStart hp hcount hroom, hended]

theorem spot_loopEnd (hx : Course code x) (hend : code[close]? = some 0xFC)
    (hat : (x j).IsAt close stack) : (x (j + 1)).spot
      = ({ position := close + 1, stack } : Control).loopEnd.spot := by
  obtain ⟨rfl, rfl, hended⟩ := Stand.isAt_iff.1 hat
  rw [hx j, Stand.spot, Stand.step_control, Control.spot_step_loopEnd hend]
  apply Control.spot_loopEnd_congr
  rw [Control.spot, hended]
  rfl

/-- The end of a loop goes back to its start. -/
theorem loopEnd (hx : Course code x) (hend : code[close]? = some 0xFC) (hne : passes ≠ 0)
    (hat : (x j).IsAt close (.loop passes start :: stack)) :
    (x (j + 1)).IsAt start
      (if passes = 1 then stack else .loop (passes - 1) start :: stack) := by
  unfold Stand.IsAt
  rw [hx.spot_loopEnd hend hat, Control.loopEnd]
  simp only [if_neg hne]
  split <;> rfl

theorem passes_of_loop (hx : Course code x) (hend : code[close]? = some 0xFC)
    (hlast : Balanced x start close stack i)
    (hbody : ∀ passes, Balanced x start close (.loop passes start :: stack) i)
    (hpasses : passes.toNat = times + 1) (hk : i < k)
    (hat : (x k).IsAt start (.loop passes start :: stack)) :
    ∃ j, Passes x start close (times + 2) k j ∧ (x j).IsAt close stack := by
  induction times generalizing passes k with
  | zero =>
    obtain rfl : passes = 1 := UInt8.toNat_inj.1 hpasses
    obtain ⟨j, hpass⟩ := hbody 1 k hk hat
    have hagain : (x (j + 1)).IsAt start stack := hx.loopEnd hend (by decide) hpass.closes
    have hle := hpass.le
    obtain ⟨j', hpass'⟩ := hlast (j + 1) (by omega) hagain
    exact ⟨j', .more hpass (.last hpass'), hpass'.closes⟩
  | succ times ih =>
    have hzero : passes ≠ 0 := by
      rintro rfl
      simp at hpasses
    have hone : passes ≠ 1 := by
      rintro rfl
      simp at hpasses
    have hleft : (passes - 1).toNat = times + 1 := by
      have hle : 1 ≤ passes := UInt8.le_iff_toNat_le.2 (by simp [hpasses])
      rw [UInt8.toNat_sub_of_le _ _ hle, hpasses]
      rfl
    obtain ⟨j, hpass⟩ := hbody passes k hk hat
    have hagain := hx.loopEnd hend hzero hpass.closes
    rw [if_neg hone] at hagain
    have hle := hpass.le
    obtain ⟨j', hrest, hclose⟩ := ih hleft (by omega) hagain
    exact ⟨j', .more hpass hrest, hclose⟩

/-- The body of a counted loop is executed once more often than it counts. The loop is left with
the frames around it exactly if the innermost of these is not a loop, or it is an endless one that
starts where this one is left. -/
theorem counted_loop_iff (hx : Course code x) (hstart : code[p]? = some 0xD4)
    (hcount : code[p + 1]? = some count) (hne : count ≠ 0) (hend : code[close]? = some 0xFC)
    (hat : (x i).IsAt p stack) (hroom : stack.length < Control.stackDepth)
    (hlast : Balanced x (p + 2) close stack i)
    (hbody : ∀ passes, Balanced x (p + 2) close (.loop passes (p + 2) :: stack) i) :
    ∃ j, Passes x (p + 2) close (count.toNat + 1) (i + 1) j ∧
      ((x (j + 1)).IsAt (close + 1) stack ↔ ∀ passes back,
        stack.head? = some (.loop passes back) → passes = 0 ∧ back = close + 1) := by
  obtain ⟨times, htimes⟩ : ∃ times, count.toNat = times + 1 := by
    refine Nat.exists_eq_succ_of_ne_zero fun h => hne (UInt8.toNat_inj.1 h)
  obtain ⟨j, hpasses, hclose⟩ := hx.passes_of_loop hend hlast hbody htimes (Nat.lt_succ_self i)
    (hx.loopStart hstart hcount hat hroom)
  refine ⟨j, htimes ▸ hpasses, ?_⟩
  unfold Stand.IsAt
  rw [hx.spot_loopEnd hend hclose]
  exact Control.spot_loopEnd_eq_iff (c := { position := close + 1, stack })

/-! ## Two courses -/

/-- Through the spots of a list, and at the last spot for ever. -/
def along (l : List Control.Spot) (last : Control.Spot) (k : Nat) : Stand :=
  .atSpot (l.getD k last)

theorem along_isCourse {l : List Control.Spot} {last : Control.Spot}
    (hl : ∀ k < l.length, ((along l last k).step code).spot = l.getD (k + 1) last)
    (hlast : ((Stand.atSpot last).step code).spot = last) : Course code (along l last) := by
  intro k
  by_cases hk : k < l.length
  · exact (hl k hk).symm
  · have hnow : along l last k = .atSpot last := by
      rw [along, List.getD_eq_default _ _ (by omega)]
    have hnext : along l last (k + 1) = .atSpot last := by
      rw [along, List.getD_eq_default _ _ (by omega)]
    rw [hnow, hnext, hlast]
    rfl

theorem step_atSpot {a b : Control.Spot} {i : Instruction} {behind : Nat}
    (h : Command.read code a.position = .ok (.plain i, behind))
    (hb : (({ position := behind, stack := a.stack, ended := a.ended } : Control).perform
      (Stand.atSpot a).score i).1.spot = b) : ((Stand.atSpot a).step code).spot = b := by
  rw [Stand.spot, Stand.step_control, ← hb]
  exact congrArg Control.spot (Control.step_of_performed h rfl)

theorem step_atSpot_of_error {a : Control.Spot} {e : EndOfData}
    (h : Command.read code a.position = .error e) :
    ((Stand.atSpot a).step code).spot = ⟨e.position, a.stack, true⟩ := by
  rw [Stand.spot, Stand.step_control]
  exact congrArg Control.spot (Control.step_of_cutOff h)

theorem pass_of_empty (hat : (x k).IsAt start stack) : Pass x start start stack k k :=
  ⟨Nat.le_refl k, hat, hat, fun _ hle hlt => absurd hlt (Nat.not_lt.2 hle)⟩

theorem pass_of_command (hstart : (x k).IsAt start stack) (hclose : (x (k + 1)).IsAt close stack)
    (hne : start ≠ close) : Pass x start close stack k (k + 1) := by
  refine ⟨Nat.le_succ k, hstart, hclose, fun m hle hlt hat => hne ?_⟩
  obtain rfl : m = k := by omega
  exact congrArg Control.Spot.position (hstart.symm.trans hat)

/-- A rest that is to be repeated twice, inside a call. -/
theorem counted_loop_in_call :
    ∃ x, Course #[0xD4, 2, 0x80, 1, 0xFC, 0xFF] x ∧
      ∃ j, Passes x 2 4 3 1 j ∧ (x (j + 1)).IsAt 5 [.call 6] := by
  let code : Bytes := #[0xD4, 2, 0x80, 1, 0xFC, 0xFF]
  let inner (passes : UInt8) : List Frame := [.loop passes 2, .call 6]
  let x := along [⟨0, [.call 6], false⟩, ⟨2, inner 2, false⟩, ⟨4, inner 2, false⟩,
    ⟨2, inner 1, false⟩, ⟨4, inner 1, false⟩, ⟨2, [.call 6], false⟩, ⟨4, [.call 6], false⟩,
    ⟨5, [.call 6], false⟩] ⟨6, [.call 6], true⟩
  have hstart : Command.read code 0 = .ok (.plain { opcode := .loopStart, first := 2 }, 2) := by
    cbv
  have hrest : Command.read code 2 = .ok (.plain { opcode := .rest, first := 1 }, 4) := by cbv
  have hend : Command.read code 4 = .ok (.plain { opcode := .loopEnd }, 5) := by cbv
  have hfinish : Command.read code 5 = .ok (.plain { opcode := .finish }, 6) := by cbv
  have hover : Command.read code 6 = .error ⟨6⟩ := by cbv
  have hx : Course code x := by
    apply along_isCourse
    · intro k hk
      simp only [List.length_cons, List.length_nil] at hk
      interval_cases k
      exacts [step_atSpot hstart rfl, step_atSpot hrest rfl, step_atSpot hend rfl,
        step_atSpot hrest rfl, step_atSpot hend rfl, step_atSpot hrest rfl, step_atSpot hend rfl,
        step_atSpot hfinish rfl]
    · exact step_atSpot_of_error hover
  have hbody : ∀ stack, Balanced x 2 4 stack 0 := by
    intro stack k _ hat
    -- The body begins at the stands 1, 3 and 5.
    rcases k with _ | _ | _ | _ | _ | _ | _ | _ | k <;> cases hat
    all_goals exact ⟨_, pass_of_command rfl rfl (by decide)⟩
  have hat : (x 0).IsAt 0 [.call 6] := rfl
  obtain ⟨j, hpasses, hleft⟩ := hx.counted_loop_iff rfl rfl (by decide) rfl hat (by decide)
    (hbody _) (fun passes => hbody _)
  exact ⟨x, hx, j, hpasses, hleft.2 (by simp)⟩

/-- A loop that is all there is of another one. Its last end takes a pass of the outer loop. -/
theorem not_counted_loops_nest :
    ¬ ∀ code x p count close stack i, Course code x → code[p]? = some 0xD4 →
      code[p + 1]? = some count → count ≠ 0 → code[close]? = some 0xFC →
      (x i).IsAt p stack → stack.length < Control.stackDepth →
      (∀ stack, Balanced x (p + 2) close stack i) →
      ∃ j, Passes x (p + 2) close (count.toNat + 1) (i + 1) j ∧
        (x (j + 1)).IsAt (close + 1) stack := by
  intro hall
  let code : Bytes := #[0xD4, 1, 0xD4, 1, 0xFC, 0xFC, 0xFF]
  let outer : Frame := .loop 1 2
  let inner : Frame := .loop 1 4
  let x := along [⟨0, [], false⟩, ⟨2, [outer], false⟩, ⟨4, [inner, outer], false⟩,
    ⟨4, [outer], false⟩, ⟨2, [], false⟩, ⟨4, [inner], false⟩, ⟨4, [], false⟩, ⟨5, [], false⟩,
    ⟨6, [], false⟩] ⟨7, [], true⟩
  have hstart : Command.read code 0 = .ok (.plain { opcode := .loopStart, first := 1 }, 2) := by
    cbv
  have hstart' : Command.read code 2 = .ok (.plain { opcode := .loopStart, first := 1 }, 4) := by
    cbv
  have hend : Command.read code 4 = .ok (.plain { opcode := .loopEnd }, 5) := by cbv
  have hend' : Command.read code 5 = .ok (.plain { opcode := .loopEnd }, 6) := by cbv
  have hfinish : Command.read code 6 = .ok (.plain { opcode := .finish }, 7) := by cbv
  have hover : Command.read code 7 = .error ⟨7⟩ := by cbv
  have hx : Course code x := by
    apply along_isCourse
    · intro k hk
      simp only [List.length_cons, List.length_nil] at hk
      interval_cases k
      exacts [step_atSpot hstart rfl, step_atSpot hstart' rfl, step_atSpot hend rfl,
        step_atSpot hend rfl, step_atSpot hstart' rfl, step_atSpot hend rfl, step_atSpot hend rfl,
        step_atSpot hend' rfl, step_atSpot hfinish rfl]
    · exact step_atSpot_of_error hover
  have hat : (x 1).IsAt 2 [outer] := rfl
  obtain ⟨j, -, hleft⟩ := hall _ x 2 1 4 [outer] 1 hx rfl rfl (by decide) rfl hat (by decide)
    (fun stack k _ hk => ⟨k, pass_of_empty hk⟩)
  rcases j with _ | _ | _ | _ | _ | _ | _ | _ | j <;> cases hleft

end Course

end SoundArchive
