import SoundArchive.Playback.Curve
import SoundArchive.Sequence.Command

/-!
# The score

What the tracks of a player share and their commands depend on: tempo, volume, variables and
random numbers. Nothing here hangs on what sounds.
-/

namespace SoundArchive

abbrev variableCount : Nat := 32

/-- Where random numbers come from. -/
structure Randomness where
  /-- A number between two bounds, drawn when so much of the source is used up, and how much is used
  up then. -/
  draw : (used : Nat) → Int16 → Int16 → Int16 × Nat
  used : Nat := 0

structure Score where
  tempo : UInt16 := 120
  /-- A level. -/
  masterVolume : Int := 0
  /-- The master volume was set since the last round. -/
  volumeChanged : Bool := false
  memory : Vector Int16 variableCount := Vector.replicate variableCount (-1)
  random : Randomness

namespace Score

/-- A variable that does not exist is 0. -/
def valueOf (s : Score) (index : UInt8) : Int16 := s.memory[index.toNat]?.getD 0

def drawBetween (s : Score) (a b : Int16) : Int16 × Score :=
  let (value, used) := s.random.draw s.random.used a b
  (value, { s with random := { s.random with used } })

/-! ## Variables -/

/-- Shifts to the left, or to the right by a negative count. Nothing is left of a value that is
shifted out to the left, and its sign to the right. -/
def shift (value count : Int16) : Int16 :=
  if count ≥ 0 then
    if count < 16 then value <<< count else 0
  else value >>> Int16.ofNat (min count.toInt.natAbs 15)

/-- What an assignment makes of a variable. Divisions without a quotient change nothing. -/
def assigned (s : Score) (how : Assignment) (old value : Int16) : Option Int16 × Score :=
  match how with
  | .set => (some value, s)
  | .add => (some (old + value), s)
  | .sub => (some (old - value), s)
  | .mul => (some (old * value), s)
  | .div =>
    if value = 0 ∨ (old = Int16.minValue ∧ value = -1) then (none, s)
    else (some (old / value), s)
  | .shift => (some (shift old value), s)
  | .random =>
    let (drawn, s) := s.drawBetween 0 value
    (some drawn, s)

/-- Carries out an assignment, unless there is no such variable. -/
def assign (s : Score) (how : Assignment) (index : Nat) (value : Int16) : Score :=
  match s.memory[index]? with
  | none => s
  | some old =>
    match s.assigned how old value with
    | (none, s) => s
    | (some result, s) => { s with memory := s.memory.setIfInBounds index result }

def compares (how : Comparison) (old value : Int16) : Bool :=
  match how with
  | .eq => old = value
  | .ge => old ≥ value
  | .gt => old > value
  | .le => old ≤ value
  | .lt => old < value
  | .ne => old ≠ value

end Score

/-- The instruction that a command comes to, if it is not skipped. -/
def Command.resolve (condition : Bool) (s : Score) : Command → Option Instruction × Score
  | .plain instruction => (some instruction, s)
  | .random op extra low high =>
    let (value, s) := s.drawBetween low high
    (some (.computed op extra value), s)
  | .fromVariable op extra index => (some (.computed op extra (s.valueOf index)), s)
  | .conditional command => if condition then resolve condition s command else (none, s)

end SoundArchive
