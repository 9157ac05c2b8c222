import SoundArchive.Collect.Basic
import SoundArchive.Archive.Error
import SoundArchive.Text.Columns

/-!
# Failures

A command that fails says what it could not do, and then the causes, each of which is behind the
one in front of it.
-/

namespace SoundArchive

/-! ## Causes of errors -/

def ResourceError.causes : ResourceError → List String
  | header cause => [cause.message]
  | truncated => [Shortage.field.message]
  | _ => []

def DecodeError.causes : DecodeError → List String
  | header cause => [cause.message]
  | truncated cause => [cause.message]
  | resource _ _ cause => cause.message :: cause.causes
  | _ => []

def SpliceError.causes : SpliceError → List String
  | branch cause => [cause.message]
  | _ => []

def CollectError.causes : CollectError → List String
  | splice _ cause => cause.message :: cause.causes
  | bank _ cause => cause.message :: cause.causes

structure FileFault where
  text : String
  code : Option Nat := none
deriving DecidableEq

def FileFault.message (fault : FileFault) : String :=
  match fault.code with
  | some code => fault.text ++ " (os error " ++ toString code ++ ")"
  | none => fault.text

/-! ## Failures of commands -/

structure Failure where
  message : String
  causes : List String := []
deriving DecidableEq

namespace Failure

/-- A text whose first line follows `first`, and the others `rest`. -/
def indented (first rest text : String) : String :=
  first ++ ("\n" ++ rest).intercalate (text.splitOn "\n")

/-- Several causes are numbered. -/
def causeText (numbered : Bool) (cause : String) (n : Nat) : String :=
  if numbered then indented (Text.numberAtRight 5 n ++ ": ") "       " cause
  else indented "    " "    " cause

def text (f : Failure) : String :=
  let numbered := f.causes.length > 1
  let lines := f.causes.zipIdx.map fun (cause, n) => "\n" ++ causeText numbered cause n
  "Error: " ++ f.message
    ++ (if f.causes.isEmpty then "" else "\n\nCaused by:" ++ String.join lines) ++ "\n"

end Failure

end SoundArchive
