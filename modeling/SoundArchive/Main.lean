import SoundArchive.CommandLine.Desk

/-!
# The command line

Runs the commands on the files of this machine.
-/

namespace SoundArchive.Machine

/-- The faults that have texts of their own here. -/
def namedFaults : List FileFault :=
  [.missing, .alreadyThere, .notFolder, .isFolder, .nameTooLong]

/-- The fault with a number, which may be given as less than 0. -/
def numberedFault (code : UInt32) (text : String) : FileFault :=
  let number := if code ≤ 0x7FFFFFFF then code.toNat else (0 - code).toNat
  (namedFaults.find? (·.code = some number)).getD ⟨text.capitalize, some number⟩

def faultOf : IO.Error → FileFault
  | .noFileOrDirectory .. => .missing
  | .alreadyExists _ code text
  | .permissionDenied _ code text | .inappropriateType _ code text
  | .invalidArgument _ code text | .resourceExhausted _ code text
  | .otherError code text => numberedFault code text
  | e => ⟨toString e, none⟩

def orFault {α : Type} (action : IO α) : IO (Except FileFault α) := do
  match ← action.toBaseIO with
  | .ok value => return .ok value
  | .error e => return .error (faultOf e)

def isThere (path : String) : IO Bool := do
  return (← (IO.FS.realPath path).toBaseIO).isOk

def isFolder (path : String) : IO Bool := do
  match ← (IO.FS.realPath path).toBaseIO with
  | .ok place => place.isDir
  | .error _ => return false

/-- The folder that a path is in. It has no name if it is the one where the program runs. -/
def folderOf (path : String) : String :=
  (if "/".isPrefixOf path then "/" else "") ++ "/".intercalate (Path.names path).dropLast

def makeFolder (path : String) : IO Unit := do
  match ← (IO.FS.createDir path).toBaseIO with
  | .ok () => return
  | .error e => if !(← isFolder path) then throw e

/-- Makes a folder and those that it is in. -/
partial def makeFolders (path : String) : IO Unit := do
  if path.isEmpty then return
  match ← (makeFolder path).toBaseIO with
  | .ok () => return
  | .error (.noFileOrDirectory ..) => do
    makeFolders (folderOf path)
    makeFolder path
  | .error e => throw e

def write (path : String) (data : Bytes) : IO Unit := do
  makeFolders (folderOf path)
  IO.FS.writeBinFile path ⟨data⟩

/-- What is in the folder at a path. Links are not followed, and what cannot be read is empty. -/
partial def inside (path : String) (recursive : Bool) : IO (List String) := do
  match ← (IO.FS.realPath path >>= fun place => place.readDir).toBaseIO with
  | .error _ => return []
  | .ok entries =>
    let found ← entries.toList.mapM fun entry => do
      let below := Desk.joined path [entry.fileName]
      if recursive && (← entry.path.symlinkMetadata).type == .dir then
        return below :: (← inside below true)
      return [below]
    return found.flatten

def contents (path : String) (recursive : Bool) : IO (List String) := do
  if !(← isThere path) then return []
  return path :: (← inside path recursive)

def answer : IO (Option String) := do
  let line ← (← IO.getStdin).getLine
  return if line.isEmpty then none else some line

def host : Host IO where
  read path := orFault do return (← IO.FS.readBinFile path).data
  write path data := orFault (write path data)
  isThere := isThere
  contents := contents
  say line := IO.println line
  answer := answer

end SoundArchive.Machine

open SoundArchive in
def main (arguments : List String) : IO UInt32 := do
  let outcome ← Machine.host.run arguments
  match outcome with
  | .done => pure ()
  | .stopped .help => IO.print Request.usage
  | .stopped .misuse => IO.eprint Request.usage
  | .failed failure => IO.eprint failure.text
  return outcome.exitCode.toUInt32
