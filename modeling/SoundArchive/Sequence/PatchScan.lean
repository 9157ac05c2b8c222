import SoundArchive.Ascending
import SoundArchive.Sequence.Reading

/-!
# Which instruments a sequence can select

A scan follows every path through the bytecode without executing it: from offset 0, through
the commands that fall through to the next one, into track openings, jumps and calls. It
records the literal patch changes and the literal branch operands, and whether a patch or a
branch target is computed while the sequence plays.
-/

namespace SoundArchive

/-- A literal patch change. -/
structure PatchSite where
  /-- Where the command begins, behind any conditionals. -/
  command : Nat
  operand : Nat
  length : Nat
  patch : UInt32
deriving DecidableEq

structure PatchScan where
  /-- Ordered by position. -/
  patches : List PatchSite := []
  /-- Offsets of the literal branch operands, ascending. -/
  branches : List Nat := []
  isDynamic : Bool := false
deriving DecidableEq

namespace PatchScan

/-! ## One command -/

/-- What a single command contributes. -/
inductive Finding where
  | nothing
  | patch (site : PatchSite)
  | branch (operand target : Nat)
  | computed
deriving DecidableEq

structure Visit where
  finding : Finding
  /-- The offset behind the command. -/
  behind : Nat
  fallsThrough : Bool
deriving DecidableEq

/-- Whether a computed operand of this command decides on a patch or a branch. -/
def isDecisive : Opcode → Bool
  | .patch | .jump | .call => true
  | _ => false

def visitBranch (code : Bytes) (operand : Nat) (fallsThrough : Bool) : Except EndOfData Visit := do
  let (target, behind) ← Bytecode.readU24 code operand
  return { finding := .branch operand target.toNat, behind, fallsThrough }

/-- The command at `p`. One behind a conditional may be skipped, so it always falls through. -/
def visit (code : Bytes) (p : Nat) : Except EndOfData Visit :=
  if h : p < code.size then
    match Opcode.ofByte code[p] with
    | .patch => do
      let (patch, behind) ← Bytecode.readNumber code (p + 1)
      let site := { command := p, operand := p + 1, length := behind - (p + 1), patch }
      return { finding := .patch site, behind, fallsThrough := true }
    | .openTrack => do
      let (_, operand) ← Bytecode.readU8 code (p + 1)
      visitBranch code operand true
    | .jump => visitBranch code (p + 1) false
    | .call => visitBranch code (p + 1) true
    | .conditional => do
      let inner ← visit code (p + 1)
      return { inner with fallsThrough := true }
    | .ret | .finish => return { finding := .nothing, behind := p + 1, fallsThrough := false }
    | .random => visitComputed code .random (p + 1)
    | .fromVariable => visitComputed code .fromVariable (p + 1)
    | op => do
      let behind ← Bytecode.skipPlain code op (p + 1)
      return { finding := .nothing, behind, fallsThrough := true }
  else .error ⟨p⟩
termination_by code.size - p
where
  /-- The command behind a prefix that computes its last operand. -/
  visitComputed (code : Bytes) (op : Opcode) (p : Nat) : Except EndOfData Visit := do
    let decisive := (code[p]?.map fun b => isDecisive (.ofByte b)).getD false
    let behind ← Bytecode.skipPlain code op p
    return { finding := if decisive then .computed else .nothing, behind, fallsThrough := true }

/-- Where the walk goes on: with the next command, and at the target of a branch later. -/
def Visit.successors (v : Visit) : List Nat :=
  let targets := match v.finding with
    | .branch _ target => [target]
    | _ => []
  if v.fallsThrough then v.behind :: targets else targets

/-! ## The walk -/

def record (scan : PatchScan) : Finding → PatchScan
  | .nothing => scan
  | .patch site => { scan with patches := site :: scan.patches }
  | .branch operand _ => { scan with branches := operand :: scan.branches }
  | .computed => { scan with isDynamic := true }

/-- Visits what is reached from `pending` and not `seen` yet, the latest addition first. -/
def explore (code : Bytes) (seen : Vector Bool code.size) (pending : List Nat)
    (scan : PatchScan) : Except EndOfData PatchScan :=
  match pending with
  | [] => .ok scan
  | p :: rest =>
    if h : p < code.size then
      if hs : seen[p] = true then explore code seen rest scan
      else
        match visit code p with
        | .error e => .error e
        | .ok v => explore code (seen.set p true) (v.successors ++ rest) (scan.record v.finding)
    else .error ⟨p⟩
termination_by (seen.count false, pending.length)
decreasing_by
  · exact Prod.Lex.right _ (by simp)
  · refine Prod.Lex.left _ _ ?_
    have hp : seen[p] = false := by simpa using hs
    have : 0 < seen.count false := Vector.count_pos_iff.2 (hp ▸ Vector.getElem_mem h)
    have hc : (seen.set p true).count false = seen.count false - 1 + 0 := by
      rw [Vector.count_set h, hp]
      rfl
    omega

/-- Puts what was found into the order of positions, each branch operand once. -/
def ordered (scan : PatchScan) : PatchScan :=
  { scan with
    patches := scan.patches.mergeSort fun a b => a.command ≤ b.command
    branches := ascending scan.branches }

end PatchScan

def scanPatches (code : Bytes) : Except EndOfData PatchScan := do
  let scan ← PatchScan.explore code (Vector.replicate code.size false) [0] {}
  return scan.ordered

/-- Every patch that a literal patch change selects, ascending. -/
def PatchScan.usedPatches (scan : PatchScan) : List UInt32 :=
  ascending (scan.patches.map (·.patch))

end SoundArchive
