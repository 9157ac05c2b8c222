import SoundArchive.Playback.Track
import SoundArchive.Proofs.Playback.Foresight

/-!
# Executing a command goes as far as its length says

A command can also be executed while it is read, byte by byte, and skipped by its length where a
condition fails. It comes to the same, and it ends where the length of the command says unless
the command goes elsewhere.
-/

namespace SoundArchive

open Bytecode

/-! ## Commands and their lengths -/

/-- The opcode of the command at `p`. -/
def opcodeAt? (code : Bytes) (p : Nat) : Option Opcode := code[p]?.map Opcode.ofByte

theorem opcodeAt?_of_lt {code : Bytes} {p : Nat} (h : p < code.size) :
    opcodeAt? code p = some (Opcode.ofByte code[p]) := by
  rw [opcodeAt?, Array.getElem?_eq_getElem h, Option.map_some]

theorem Command.read_eq_plain {code : Bytes} {p : Nat} (h : p < code.size)
    (hrandom : Opcode.ofByte code[p] ≠ .random)
    (hvariable : Opcode.ofByte code[p] ≠ .fromVariable)
    (hconditional : Opcode.ofByte code[p] ≠ .conditional) :
    Command.read code p = (Instruction.read code (Opcode.ofByte code[p]) (p + 1)).map
      fun r => (.plain r.1, r.2) := by
  rw [Command.read, dif_pos h]
  split
  · next hop => exact absurd hop hrandom
  · next hop => exact absurd hop hvariable
  · next hop => exact absurd hop hconditional
  · rcases Instruction.read code (Opcode.ofByte code[p]) (p + 1) with _ | r <;> rfl

/-- What was read begins with its opcode, and a prefix has its target right behind it. -/
theorem Command.read_cases {code : Bytes} {p q : Nat} {command : Command}
    (h : Command.read code p = .ok (command, q)) :
    match command with
    | .plain i => opcodeAt? code p = some i.opcode
    | .random op .. => opcodeAt? code p = some .random ∧ opcodeAt? code (p + 1) = some op
    | .fromVariable op .. =>
      opcodeAt? code p = some .fromVariable ∧ opcodeAt? code (p + 1) = some op
    | .conditional inner =>
      opcodeAt? code p = some .conditional ∧ Command.read code (p + 1) = .ok (inner, q) := by
  obtain ⟨hp, h⟩ := Command.read_inv h
  rw [opcodeAt?_of_lt hp]
  cases command with
  | plain i => exact congrArg some (Instruction.read_opcode h.2).symm
  | random | fromVariable =>
    obtain ⟨hop, r, htarget⟩ := h
    exact ⟨congrArg some hop, Command.readTarget_opcode htarget⟩
  | conditional inner => exact ⟨congrArg some h.1, h.2⟩

/-! ## Execution while reading -/

namespace Control

/-- Goes on to `behind` and performs the instruction there. -/
def performAt (c : Control) (s : Score) (behind : Nat) (i : Instruction) :
    Control × Score × Option Instruction :=
  let (c, s) := ({ c with position := behind } : Control).perform s i
  (c, s, some i)

/-- Executes the command at `p` while it is read. -/
def executeAt (code : Bytes) (c : Control) (s : Score) (p : Nat) :
    Except EndOfData (Control × Score × Option Instruction) :=
  if h : p < code.size then
    match Opcode.ofByte code[p] with
    | .random => do
      let ((op, extra), p) ← Command.readTarget code (p + 1)
      let (low, p) ← readS16 code p
      let (high, p) ← readS16 code p
      let (value, s) := s.drawBetween low high
      return c.performAt s p (.computed op extra value)
    | .fromVariable => do
      let ((op, extra), p) ← Command.readTarget code (p + 1)
      let (index, p) ← readU8 code p
      return c.performAt s p (.computed op extra (s.valueOf index))
    | .conditional =>
      if c.condition then executeAt code c s (p + 1)
      else do
        let behind ← skipCommand code (p + 1)
        return ({ c with position := behind }, s, none)
    | op => do
      let (instruction, p) ← Instruction.read code op (p + 1)
      return c.performAt s p instruction
  else .error ⟨p⟩
termination_by code.size - p

/-- What a command that was read whole does. -/
def obey (c : Control) (s : Score) (r : Command × Nat) : Control × Score × Option Instruction :=
  match r.1.resolve c.condition s with
  | (none, s) => ({ c with position := r.2 }, s, none)
  | (some i, s) => c.performAt s r.2 i

theorem obey_conditional (c : Control) (s : Score) (command : Command) (behind : Nat) :
    c.obey s (.conditional command, behind)
      = if c.condition then c.obey s (command, behind)
        else ({ c with position := behind }, s, none) := by
  simp only [obey, Command.resolve]
  cases c.condition <;> rfl

/-- It makes no difference whether a command is executed while it is read or afterwards. -/
theorem executeAt_eq_read (code : Bytes) (c : Control) (s : Score) (p : Nat) :
    executeAt code c s p = (Command.read code p).map (c.obey s) := by
  fun_induction executeAt code c s p with
  | case1 p h hop =>
    rw [Command.read, dif_pos h, hop]
    rcases Command.readTarget code (p + 1) with _ | ⟨⟨op, extra⟩, q⟩
    · rfl
    · simp only [bind, Except.bind]
      rcases readS16 code q with _ | ⟨low, q⟩
      · rfl
      · simp only
        rcases readS16 code q with _ | ⟨high, q⟩ <;> rfl
  | case2 p h hop =>
    rw [Command.read, dif_pos h, hop]
    rcases Command.readTarget code (p + 1) with _ | ⟨⟨op, extra⟩, q⟩
    · rfl
    · simp only [bind, Except.bind]
      rcases readU8 code q with _ | ⟨index, q⟩ <;> rfl
  | case3 p h hop hc ih =>
    rw [Command.read, dif_pos h, hop, ih]
    rcases Command.read code (p + 1) with _ | ⟨command, q⟩
    · rfl
    · exact congrArg Except.ok (by rw [obey_conditional, if_pos hc])
  | case4 p h hop hc =>
    -- What is skipped ends where it would have been read to.
    rw [Command.read, dif_pos h, hop, ← Command.read_end]
    rcases Command.read code (p + 1) with _ | ⟨command, q⟩
    · rfl
    · exact congrArg Except.ok (by rw [obey_conditional, if_neg hc])
  | case5 p h h1 h2 h3 =>
    rw [Command.read_eq_plain h h1 h2 h3]
    rcases Instruction.read code (Opcode.ofByte code[p]) (p + 1) with _ | ⟨i, q⟩ <;> rfl
  | case6 p h =>
    rw [Command.read, dif_neg h]
    rfl

/-- Executes the command at the position. One that is cut off fails where its bytes run out. -/
def execute (code : Bytes) (c : Control) (s : Score) :
    Except EndOfData (Control × Score × Option Instruction) :=
  executeAt code c s c.position

/-- Ends the track where the bytes ran out. -/
def cutOff (c : Control) (e : EndOfData) : Control := { c with position := e.position }.finish

/-- A step executes a command, and ends the track if that fails. -/
theorem step_eq_execute (code : Bytes) (c : Control) (s : Score) :
    c.step code s =
      match c.execute code s with
      | .error e => (c.cutOff e, s, none)
      | .ok r => r := by
  rw [execute, executeAt_eq_read, step]
  rcases Command.read code c.position with e | ⟨command, behind⟩
  · rfl
  · simp only [Except.map, obey]
    rcases command.resolve c.condition s with ⟨_ | i, s'⟩ <;> rfl

/-! ## Going elsewhere -/

/-- Whether a track goes elsewhere with such an instruction: with a jump, with a call while there
is room, and at the end of a call or a loop that is the innermost frame. -/
def Transfers (c : Control) : Opcode → Prop
  | .jump => True
  | .call => c.stack.length < stackDepth
  | .ret => ∃ back, c.stack.head? = some (.call back)
  | .loopEnd => ∃ passes back, c.stack.head? = some (.loop passes back)
  | _ => False

/-- Whether the command at an offset goes elsewhere, itself, behind conditions that hold or with
a computed operand. -/
inductive TransfersAt (code : Bytes) (c : Control) : Nat → Prop where
  | plain {p : Nat} {op : Opcode} (hop : opcodeAt? code p = some op) (h : c.Transfers op) :
    TransfersAt code c p
  | random {p : Nat} {op : Opcode} (hop : opcodeAt? code p = some .random)
    (htarget : opcodeAt? code (p + 1) = some op) (h : c.Transfers op) : TransfersAt code c p
  | fromVariable {p : Nat} {op : Opcode} (hop : opcodeAt? code p = some .fromVariable)
    (htarget : opcodeAt? code (p + 1) = some op) (h : c.Transfers op) : TransfersAt code c p
  | conditional {p : Nat} (hop : opcodeAt? code p = some .conditional) (hc : c.condition = true)
    (h : TransfersAt code c (p + 1)) : TransfersAt code c p

theorem transfersAt_conditional_iff {code : Bytes} {c : Control} {p : Nat}
    (hop : opcodeAt? code p = some .conditional) :
    c.TransfersAt code p ↔ c.condition = true ∧ c.TransfersAt code (p + 1) := by
  refine ⟨fun h => ?_, fun h => .conditional hop h.1 h.2⟩
  cases h with
  | plain hop' h =>
    cases hop.symm.trans hop'
    exact h.elim
  | random hop' | fromVariable hop' => cases hop.symm.trans hop'
  | conditional _ hc h => exact ⟨hc, h⟩

theorem transfersAt_plain_iff {code : Bytes} {c : Control} {p : Nat} {op : Opcode}
    (hop : opcodeAt? code p = some op) (hrandom : op ≠ .random) (hvariable : op ≠ .fromVariable)
    (hconditional : op ≠ .conditional) : c.TransfersAt code p ↔ c.Transfers op := by
  refine ⟨fun h => ?_, .plain hop⟩
  cases h with
  | plain hop' h =>
    cases hop.symm.trans hop'
    exact h
  | random hop' => exact absurd (Option.some.inj (hop.symm.trans hop')) hrandom
  | fromVariable hop' => exact absurd (Option.some.inj (hop.symm.trans hop')) hvariable
  | conditional hop' => exact absurd (Option.some.inj (hop.symm.trans hop')) hconditional

/-- The other instructions leave the track behind the command. -/
theorem position_perform {c : Control} {i : Instruction} (s : Score)
    (h : ¬ c.Transfers i.opcode) : (c.perform s i).1.position = c.position := by
  obtain ⟨op, first, second⟩ := i
  cases op
  case jump => exact absurd trivial h
  case call =>
    have hfull : ¬ c.stack.length < stackDepth := h
    simp only [perform, call]
    rw [if_neg hfull]
  case ret =>
    simp only [perform, ret]
    split
    · next back rest hstack => exact absurd ⟨back, by rw [hstack]; rfl⟩ h
    · rfl
  case loopEnd =>
    simp only [perform, loopEnd]
    split
    · next passes back rest hstack => exact absurd ⟨passes, back, by rw [hstack]; rfl⟩ h
    · rfl
  case loopStart =>
    simp only [perform, loopStart]
    split <;> rfl
  case note | compare =>
    simp only [perform]
    split <;> rfl
  all_goals rfl

/-- An instruction that goes elsewhere makes its command do so. -/
theorem transfersAt_of_resolve {code : Bytes} {c : Control} {p q : Nat} {command : Command}
    {s s' : Score} {i : Instruction} (hread : Command.read code p = .ok (command, q))
    (hres : command.resolve c.condition s = (some i, s')) (h : c.Transfers i.opcode) :
    TransfersAt code c p := by
  induction command generalizing p with
  | plain instruction =>
    cases hres
    exact .plain (Command.read_cases hread) h
  | random op extra low high =>
    cases hres
    rw [Instruction.computed_opcode] at h
    obtain ⟨hop, htarget⟩ := Command.read_cases hread
    exact .random hop htarget h
  | fromVariable op extra index =>
    cases hres
    rw [Instruction.computed_opcode] at h
    obtain ⟨hop, htarget⟩ := Command.read_cases hread
    exact .fromVariable hop htarget h
  | conditional inner ih =>
    obtain ⟨hop, hinner⟩ := Command.read_cases hread
    rw [Command.resolve] at hres
    split at hres
    · next hc => exact .conditional hop hc (ih hinner hres)
    · cases hres

/-- A command that was read whole leaves the track behind it, or goes elsewhere. -/
theorem position_obey {code : Bytes} {c : Control} {p : Nat} {r : Command × Nat} (s : Score)
    (hread : Command.read code p = .ok r) (h : ¬ c.TransfersAt code p) :
    (c.obey s r).1.position = r.2 := by
  unfold obey
  rcases hres : r.1.resolve c.condition s with ⟨_ | i, s'⟩
  · rfl
  · have hstay : ¬ ({ c with position := r.2 } : Control).Transfers i.opcode :=
      fun ht => h (transfersAt_of_resolve hread hres ht)
    exact position_perform s' hstay

end Control

/-! ## Tracks -/

namespace Stand

/-- Lets a command be heard that the track has executed. -/
def heard (s : Stand) : Control × Score × Option Instruction → Stand
  | (control, score, none) => { s with track := { s.track with control }, score }
  | (control, score, some i) =>
    let (voice, mixer) := s.track.voice.perform s.mixer s.track.control i
    { track := { control, voice }, score, mixer }

theorem control_heard (s : Stand) (r : Control × Score × Option Instruction) :
    (s.heard r).track.control = r.1 := by
  rcases r with ⟨control, score, _ | i⟩ <;> rfl

def execute (code : Bytes) (s : Stand) : Except EndOfData Stand :=
  (s.track.control.execute code s.score).map s.heard

def cutOff (s : Stand) (e : EndOfData) : Stand :=
  { s with track := { s.track with control := s.track.control.cutOff e } }

theorem step_eq_execute (code : Bytes) (s : Stand) :
    s.step code =
      match s.execute code with
      | .error e => s.cutOff e
      | .ok t => t := by
  simp only [step, execute, Control.step_eq_execute]
  rcases s.track.control.execute code s.score with e | ⟨control, score, _ | i⟩ <;> rfl

/-- A command executes exactly if it has a length, and fails where its length does. It leaves the
track behind it then, unless it goes elsewhere. -/
theorem execute_agrees_with_commandLength (code : Bytes) (s : Stand) :
    match commandLength code s.track.control.position with
    | .error e => s.execute code = .error e ∧ s.step code = s.cutOff e
    | .ok length =>
      s.execute code = .ok (s.step code) ∧
        (¬ s.track.control.TransfersAt code s.track.control.position →
          (s.step code).track.control.position = s.track.control.position + length) := by
  have hend := Command.read_end code s.track.control.position
  have hexecute : s.execute code = ((Command.read code s.track.control.position).map
      (s.track.control.obey s.score)).map s.heard := by
    rw [execute, Control.execute, Control.executeAt_eq_read]
  rw [commandLength, ← hend]
  rw [step_eq_execute, hexecute]
  cases hread : Command.read code s.track.control.position with
  | error e => exact ⟨rfl, rfl⟩
  | ok r =>
    rw [hread] at hend
    have hle : s.track.control.position ≤ r.2 := le_of_skipCommand hend.symm
    refine ⟨rfl, fun hstay => ?_⟩
    change (s.heard (s.track.control.obey s.score r)).track.control.position = _
    rw [control_heard, Control.position_obey s.score hread hstay]
    exact (Nat.add_sub_cancel' hle).symm

/-- Behind two conditions that hold, the end of a loop is passed inside a call. -/
theorem execute_behind_conditions :
    let code : Bytes := #[0xA2, 0xA2, 0xFC, 0xFF]
    let track := Track.start 0 0 0
    let control := { track.control with stack := [.call 3] }
    let s : Stand := ⟨{ track with control }, { random := { draw := fun used low _ => (low, used) } }, {}⟩
    commandLength code 0 = .ok 3 ∧ ¬ control.TransfersAt code 0 ∧
      (s.step code).track.control.position = 3 := by
  intro code track control s
  have hlength : commandLength code 0 = .ok 3 := by cbv
  have hop : opcodeAt? code 2 = some .loopEnd := by cbv
  have hstay : ¬ control.TransfersAt code 0 := by
    rw [Control.transfersAt_conditional_iff (by cbv), Control.transfersAt_conditional_iff (by cbv),
      Control.transfersAt_plain_iff hop (by decide) (by decide) (by decide)]
    rintro ⟨-, -, passes, back, hloop⟩
    cases hloop
  have hagrees := execute_agrees_with_commandLength code s
  rw [show s.track.control.position = 0 from rfl, hlength] at hagrees
  exact ⟨hlength, hstay, (hagrees.2 hstay).trans rfl⟩

end Stand

end SoundArchive
