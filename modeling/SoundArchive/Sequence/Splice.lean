import SoundArchive.Sequence.PatchScan

/-!
# Changing a patch in place

A splice puts a new patch number into a recorded site. When its length differs, the bytes
behind it move: so do the recorded positions behind the operand, and branch targets behind it
are corrected. Offsets are words of 64 bits.
-/

namespace SoundArchive

inductive SpliceError where
  | unknownSite (site : Nat)
  | siteOutside (site : Nat)
  | targetOutOfRange (position : Nat)
  | branch (cause : EndOfData)
deriving DecidableEq

def SpliceError.message : SpliceError → String
  | .unknownSite site => "There is no patch site " ++ toString site
  | .siteOutside site =>
    "The operand of patch site " ++ toString site ++ " reaches past the bytecode"
  | .targetOutOfRange position =>
    "The branch at " ++ Text.hex position 0 ++ " would jump past the 24-bit range"
  | .branch _ => "A recorded branch operand lies outside the bytecode"

namespace Splice

/-- The offset `delta` bytes on. -/
def moved (offset : Nat) (delta : Int) : Nat := ((offset + delta) % 0x10000000000000000).toNat

/-- An offset after a change of length by `delta` at `operand`: only what lies behind moves. -/
def shifted (operand : Nat) (delta : Int) (offset : Nat) : Nat :=
  if offset > operand then moved offset delta else offset

def shiftedSite (operand : Nat) (delta : Int) (site : PatchSite) : PatchSite :=
  { site with
    command := shifted operand delta site.command
    operand := shifted operand delta site.operand }

def writeU24 (code : Bytes) (p : Nat) (value : UInt32) : Bytes :=
  ((code.setIfInBounds p value.toUInt8).setIfInBounds (p + 1) (value >>> 8).toUInt8).setIfInBounds
    (p + 2) (value >>> 16).toUInt8

def maxTarget : Nat := 0xFFFFFF

/-- Corrects the targets of the branches one by one, and keeps what was done on an error. -/
def retarget (operand : Nat) (delta : Int) (code : Bytes) :
    List Nat → Bytes × Except SpliceError Unit
  | [] => (code, .ok ())
  | position :: rest =>
    match Bytecode.readU24 code position with
    | .error e => (code, .error (.branch e))
    | .ok (target, _) =>
      if target.toNat ≤ operand then retarget operand delta code rest
      else
        let target := moved target.toNat delta
        if target > maxTarget then (code, .error (.targetOutOfRange position))
        else retarget operand delta (writeU24 code position target.toUInt32) rest

end Splice

/-- The recorded positions after the operand of `site` became `length` bytes that read as
`patch`. -/
def PatchScan.respliced (scan : PatchScan) (site : Nat) (operand : Nat) (delta : Int)
    (length : Nat) (patch : UInt32) : PatchScan :=
  { scan with
    patches := (scan.patches.map (Splice.shiftedSite operand delta)).modify site
      fun s => { s with length, patch }
    branches := scan.branches.map (Splice.shifted operand delta) }

/-- The bytecode and its scan after `patch` replaced the operand of `site`. A scan that lists one
operand twice may lose sight of it, and then there may be no such bytes to replace. -/
def splice (code : Bytes) (scan : PatchScan) (site : Nat) (patch : UInt32) :
    (Bytes × PatchScan) × Except SpliceError Unit :=
  match scan.patches[site]? with
  | none => ((code, scan), .error (.unknownSite site))
  | some { operand, length, .. } =>
    if operand + length > code.size then ((code, scan), .error (.siteOutside site))
    else
      let bytes := (Bytecode.encodeNumber patch).toArray
      let delta : Int := bytes.size - length
      let code := code.extract 0 operand ++ bytes ++ code.extract (operand + length) code.size
      let scan := scan.respliced site operand delta bytes.size patch
      if delta = 0 then ((code, scan), .ok ())
      else
        let (code, result) := Splice.retarget operand delta code scan.branches
        ((code, scan), result)

end SoundArchive
