import SoundArchive.Binary.Resource
import SoundArchive.CommandLine.Arguments

/-!
# Requests

The three commands, and what they can be asked for.
-/

namespace SoundArchive

structure InspectRequest where
  paths : List String
  recursive : Bool
  policy : DecodePolicy
deriving DecidableEq

structure StripRequest where
  inputs : List String
  output : String
  excluded : List String
  included : List String
  /-- Collect unused instruments and waves too. -/
  collect : Bool
  recursive : Bool
  policy : DecodePolicy
deriving DecidableEq

structure TimeRequest where
  path : String
  /-- The sequences to time, all if there are none. -/
  sequences : List Nat
  loops : Nat
  timeout : String
  fadeOfLoop : Nat
  fadeOfOneShot : Nat
  showTags : Bool
  policy : DecodePolicy
deriving DecidableEq

inductive Request where
  | inspect (request : InspectRequest)
  | strip (request : StripRequest)
  | time (request : TimeRequest)
deriving DecidableEq

namespace Request

/-! ## Options -/

def recursive : OptionForm := { word := "recursive", letter := some 'r' }

def bestEffort : OptionForm := { word := "best-effort", letter := some 'b' }

def output : OptionForm := { word := "output", letter := some 'o', takesValue := true }

def exclude : OptionForm :=
  { word := "exclude", letter := some 'x', takesValue := true, repeats := true }

def included : OptionForm :=
  { word := "include", letter := some 'i', takesValue := true, repeats := true }

def collect : OptionForm := { word := "gc" }

def loops : OptionForm := { word := "loops", letter := some 'l', takesValue := true }

def timeout : OptionForm := { word := "timeout", letter := some 't', takesValue := true }

def fadeLoop : OptionForm := { word := "fade-loop", takesValue := true }

def fadeOneShot : OptionForm := { word := "fade-one-shot", takesValue := true }

def showTags : OptionForm := { word := "tags" }

def policy (a : Arguments) : DecodePolicy :=
  if a.has bestEffort then .bestEffort else .failHard

/-! ## Commands -/

def parseInspect (arguments : List String) : Except ArgumentStop InspectRequest := do
  let a ← Arguments.parse [recursive, bestEffort] arguments
  return { paths := a.operands, recursive := a.has recursive, policy := policy a }

def parseStrip (arguments : List String) : Except ArgumentStop StripRequest := do
  let a ← Arguments.parse [recursive, bestEffort, output, exclude, included, collect] arguments
  match a.value? output with
  | none => throw .misuse
  | some path =>
    return {
      inputs := a.operands
      output := path
      excluded := a.values exclude
      included := a.values included
      collect := a.has collect
      recursive := a.has recursive
      policy := policy a }

/-- Numbers of sequences and of loops have 64 bits. -/
def countBound : Nat := 0x10000000000000000

/-- Numbers of seconds have 32 bits. -/
def secondsBound : Nat := 0x100000000

def sequenceNumbers (operands : List String) : Except ArgumentStop (List Nat) :=
  match operands.mapM (Arguments.number? countBound) with
  | some numbers => .ok numbers
  | none => .error .misuse

def parseTime (arguments : List String) : Except ArgumentStop TimeRequest := do
  let a ← Arguments.parse [bestEffort, loops, timeout, fadeLoop, fadeOneShot, showTags] arguments
  match a.operands with
  | [] => throw .misuse
  | path :: numbers =>
    return {
      path
      sequences := ← sequenceNumbers numbers
      loops := ← a.numberOr loops countBound 2
      timeout := (a.value? timeout).getD "3s"
      fadeOfLoop := ← a.numberOr fadeLoop secondsBound 10
      fadeOfOneShot := ← a.numberOr fadeOneShot secondsBound 0
      showTags := a.has showTags
      policy := policy a }

def usage : String :=
  "inspect [-r] [-b] [PATH]...\n"
    ++ "strip [-r] [-b] [--gc] [-x PATTERN]... [-i PATTERN]... -o OUTPUT [INPUT]...\n"
    ++ "time [-b] [-l LOOPS] [-t TIMEOUT] [--fade-loop SECONDS] [--fade-one-shot SECONDS]\n"
    ++ "    [--tags] PATH [INDEX]...\n"

def commands : List String := ["inspect", "strip", "time"]

def helpCommand : String := "help"

/-- Help can be had on every command. -/
def parseHelp (arguments : List String) : ArgumentStop :=
  match arguments with
  | [] => .help
  | [topic] => if topic ∈ helpCommand :: commands then .help else .misuse
  | _ => .misuse

def parse (arguments : List String) : Except ArgumentStop Request :=
  match arguments with
  | "inspect" :: rest => inspect <$> parseInspect rest
  | "strip" :: rest => strip <$> parseStrip rest
  | "time" :: rest => time <$> parseTime rest
  | first :: rest =>
    if first = helpCommand then .error (parseHelp rest)
    else
      match Arguments.parse [] [first] with
      | .error stop => .error stop
      | .ok _ => .error .misuse
  | [] => .error .misuse

end Request

end SoundArchive
