import SoundArchive.Archive.Basic
import SoundArchive.Collect.Selection
import SoundArchive.Sequence.Splice

/-!
# Collecting instruments

A bank has to keep the instruments that its sequences select. Those who select them are told
the new numbers.
-/

namespace SoundArchive

/-- A sequence and what its scan found. One that cannot be scanned has no scan. -/
structure ScannedSequence where
  bank : UInt16
  scan : Option PatchScan

/-- Every track starts with this patch. -/
def initialPatch : Nat := 0

namespace ScannedSequence

/-- The patches that the sequence selects. -/
def patches (s : ScannedSequence) : List Nat :=
  match s.scan with
  | some scan => initialPatch :: scan.usedPatches.map UInt32.toNat
  | none => [initialPatch]

/-- More patches may be selected than those that were found. -/
def isDynamic (s : ScannedSequence) : Bool :=
  match s.scan with
  | some scan => scan.isDynamic
  | none => true

end ScannedSequence

structure ShrunkBank where
  selection : Selection
  instruments : List Instrument

/-- Empty instruments are not worth keeping. -/
def Bank.hasInstrument (bank : Bank) (patch : Nat) : Bool :=
  match bank.instrument? patch with
  | none | some .empty => false
  | some _ => true

/-- Keeps the instruments that `patches` select. -/
def Bank.shrink (bank : Bank) (patches : List Nat) : ShrunkBank :=
  let selection := .ofUsed bank.hasInstrument patches
  { selection, instruments := selection.kept.filterMap bank.instrument? }

inductive BankPlan where
  /-- It was not read, or no sequence plays with it. -/
  | untouched
  /-- A sequence computes its patches, so any instrument may be needed. -/
  | whole
  | shrunk (bank : ShrunkBank)

namespace BankPlan

def ofUsers (bank : Bank) (sequences : List ScannedSequence) : BankPlan :=
  if sequences.isEmpty then untouched
  else if sequences.any (·.isDynamic) then whole
  else shrunk (bank.shrink (sequences.flatMap (·.patches)))

def shrunk? : BankPlan → Option ShrunkBank
  | shrunk bank => some bank
  | _ => none

def isWhole : BankPlan → Bool
  | whole => true
  | _ => false

end BankPlan

abbrev BankPlans := Array BankPlan

namespace BankPlans

/-- How many banks the numbers in sequences can tell apart. -/
def page : Nat := 65536

/-- What is left of the bank that sequences call `n`, the last one if there are several. -/
def shrunk? (plans : BankPlans) (n : UInt16) : Option ShrunkBank :=
  (List.range (plans.size / page + 1)).reverse.findSome? fun i =>
    (plans[i * page + n.toNat]?).bind (·.shrunk?)

end BankPlans

/-! ## Sequences -/

namespace Sequence

/-- Renumbers the patches at the recorded sites, one after the other. -/
def renumberPatches (selection : Selection) (code : Bytes) (scan : PatchScan) :
    Except SpliceError Bytes := do
  let (code, _) ← scan.patches.zipIdx.foldlM (fun (code, scan) (site, n) =>
    let new := selection.renumber site.patch.toNat
    if new = site.patch.toNat then .ok (code, scan)
    else
      match splice code scan n new.toUInt32 with
      | (state, .ok ()) => .ok state
      | (_, .error e) => .error e) (code, scan)
  return code

def needsRenumbering (selection : Selection) (scan : PatchScan) : Bool :=
  scan.patches.any fun site => selection.renumber site.patch.toNat ≠ site.patch.toNat

end Sequence

end SoundArchive
