import SoundArchive.Playback.Score

/-!
# The control of a track

Where a track is in its bytecode, what it waits for and where it goes next. Calls and loops
share a stack of three frames; one that finds the stack full is passed over.
-/

namespace SoundArchive

inductive Frame where
  | call (back : Nat)
  /-- A loop with the passes that are left. With 0 it goes on for ever. -/
  | loop (passes : UInt8) (back : Nat)
deriving DecidableEq

structure Control where
  position : Nat
  /-- The innermost frame first. -/
  stack : List Frame := []
  wait : UInt32 := 0
  patch : UInt32 := 0
  condition : Bool := true
  noteWait : Bool := true
  tie : Bool := false
  ended : Bool := false
  /-- Went back, and the time was not recorded yet. -/
  hitLoop : Bool := false
  /-- Ended, and the time was not recorded yet. -/
  hitEnd : Bool := false
deriving DecidableEq

namespace Control

def stackDepth : Nat := 3

/-- The offset that a word stands for. A negative one wraps to the end of the address space. -/
def offsetOf (word : Int32) : Nat := word.toInt64.toUInt64.toNat

/-- The number of runs that a word stands for. -/
def countOf (word : Int32) : UInt32 := (max word 0).toUInt32

def finish (c : Control) : Control := { c with ended := true, hitEnd := true }

/-! ## Frames -/

def call (c : Control) (target : Nat) : Control :=
  if c.stack.length < stackDepth then
    { c with stack := .call c.position :: c.stack, position := target }
  else c

/-- Goes back behind the call, if a call is the innermost frame. -/
def ret (c : Control) : Control :=
  match c.stack with
  | .call back :: rest => { c with stack := rest, position := back }
  | _ => c

def loopStart (c : Control) (passes : UInt8) : Control :=
  if c.stack.length < stackDepth then { c with stack := .loop passes c.position :: c.stack }
  else c

/-- Goes back to the start of the loop, if a loop is the innermost frame. The last pass leaves
the loop behind, so the end that it comes to belongs to an outer one. -/
def loopEnd (c : Control) : Control :=
  match c.stack with
  | .loop passes back :: rest =>
    if passes = 0 then { c with position := back, hitLoop := true }
    else if passes = 1 then { c with position := back, stack := rest }
    else { c with position := back, stack := .loop (passes - 1) back :: rest }
  | _ => c

/-! ## Instructions -/

/-- What an instruction does to the track and to the score. -/
def perform (c : Control) (s : Score) (i : Instruction) : Control × Score :=
  match i.opcode with
  | .note _ => (if c.noteWait then { c with wait := countOf i.second } else c, s)
  | .rest => ({ c with wait := countOf i.first }, s)
  | .patch => ({ c with patch := countOf i.first }, s)
  | .jump => ({ c with position := offsetOf i.first, hitLoop := true }, s)
  | .call => (c.call (offsetOf i.first), s)
  | .ret => (c.ret, s)
  | .loopStart => (c.loopStart i.first.toUInt32.toUInt8, s)
  | .loopEnd => (c.loopEnd, s)
  | .finish => (c.finish, s)
  | .noteWait => ({ c with noteWait := i.first ≠ 0 }, s)
  | .tie => ({ c with tie := i.first ≠ 0 }, s)
  | .masterVolume =>
    (c, { s with masterVolume := Curve.level i.first.toUInt32.toUInt8, volumeChanged := true })
  | .tempo => (c, { s with tempo := i.first.toUInt32.toUInt16 })
  | .assign how => (c, s.assign how (offsetOf i.first) i.second.toInt16)
  | .compare how =>
    match s.memory[offsetOf i.first]? with
    | none => (c, s)
    | some old => ({ c with condition := Score.compares how old i.second.toInt16 }, s)
  | _ => (c, s)

/-- Executes the command at the position, and says which instruction it came to. A command that
is cut off ends the track where its bytes run out. -/
def step (code : Bytes) (c : Control) (s : Score) : Control × Score × Option Instruction :=
  match Command.read code c.position with
  | .error e => ({ c with position := e.position }.finish, s, none)
  | .ok (command, behind) =>
    let c := { c with position := behind }
    match command.resolve c.condition s with
    | (none, s) => (c, s, none)
    | (some instruction, s) =>
      let (c, s) := c.perform s instruction
      (c, s, some instruction)

end Control

end SoundArchive
