import SoundArchive.Archive.Embedded
import SoundArchive.Archive.Encode
import SoundArchive.Archive.Merge
import SoundArchive.CommandLine.Duration
import SoundArchive.CommandLine.Host
import SoundArchive.CommandLine.Listing
import SoundArchive.CommandLine.Request
import SoundArchive.Strip.Basic
import SoundArchive.Text.Path

/-!
# Commands

What the commands do, on any host.
-/

namespace SoundArchive

namespace Host

variable {m : Type → Type} [Monad m] (host : Host m)

/-- A value, or a failure with a message and the causes of an error. -/
def orFail {ε α : Type} (message : String) (causes : ε → List String) (result : Except ε α) :
    CommandM m α :=
  match result with
  | .ok value => pure value
  | .error e => throw { message, causes := causes e }

def tell (line : String) : CommandM m Unit := ExceptT.lift (host.say line)

/-! ## Reading archives -/

/-- The extension of the image of a game. Archives are found inside it. -/
def imageExtension : String := "nds"

def archiveExtensions : List String := ["sdat", imageExtension]

/-- Whether a search takes up a file. Hidden files are passed over. -/
def isArchivePath (path : String) : Bool :=
  let name := (Path.fileName? path).getD path
  !".".isPrefixOf name && archiveExtensions.any (Path.hasExtension path)

def archivePaths (paths : List String) (recursive : Bool) : CommandM m (List String) := do
  let found ← paths.mapM fun path => ExceptT.lift (host.contents path recursive)
  return found.flatten.filter isArchivePath

/-- The archives in a file: those inside an image, or else the one that the file is. -/
def loadArchives (path : String) (policy : DecodePolicy) : CommandM m (List Archive) := do
  let data ← orFail ("Could not read " ++ path) (fun fault => [fault.message])
    (← ExceptT.lift (host.read path))
  let id := (Path.fileName? path).getD ""
  if Path.hasExtension path imageExtension then return Archive.embedded data id policy
  let archive ← orFail ("Could not decode " ++ path) (fun e => e.message :: e.causes)
    (Archive.decode data id policy)
  return [archive]

/-! ## Inspecting -/

def inspectFile (path : String) (policy : DecodePolicy) : CommandM m Unit := do
  let archives ← host.loadArchives path policy
  if archives.isEmpty then host.tell (Text.atLeft 32 path ++ "No archives")
  archives.forM fun archive => archive.listing.forM host.tell

/-- The files are told apart by an empty line. -/
def inspectFiles (policy : DecodePolicy) : List String → CommandM m Unit
  | [] => pure ()
  | [last] => host.inspectFile last policy
  | path :: rest => do
    host.inspectFile path policy
    host.tell ""
    inspectFiles policy rest

def inspect (r : InspectRequest) : CommandM m Unit := do
  host.inspectFiles r.policy (← host.archivePaths r.paths r.recursive)

/-! ## Stripping -/

/-- Announces an archive and puts it behind the others. -/
def mergeNext (path : String) (merged : Option Archive) (archive : Archive) :
    CommandM m (Option Archive) := do
  host.tell (path ++ " => " ++ toString archive.sequences.liveCount ++ " sequences")
  match merged with
  | none => return some archive
  | some merged => return some (merged.merge archive)

def mergeFile (policy : DecodePolicy) (merged : Option Archive) (path : String) :
    CommandM m (Option Archive) := do
  (← host.loadArchives path policy).foldlM (host.mergeNext path) merged

/-- More questions than anyone will answer. -/
def maxQuestions : Nat := 0x4000000000000000

/-- Asks until the answer is yes or no. No answer at all is no. -/
def confirm (question : String) : (questions : Nat) → CommandM m Bool
  | 0 => pure false
  | questions + 1 => do
    host.tell question
    match ← ExceptT.lift host.answer with
    | none => pure false
    | some line =>
      let line := Text.trimEnd line.toList
      if line = ['Y'] then pure true
      else if line = ['n'] then pure false
      else confirm question questions

/-- Whether a file may be written, in place of what is there. -/
def mayWrite (path : String) : CommandM m Bool := do
  if ← ExceptT.lift (host.isThere path) then
    host.confirm (path ++ " already exists. Do you want to overwrite it? Y/n") maxQuestions
  else return true

/-- Exclusions come first, so inclusions have their way. -/
def rulesOf (r : StripRequest) : List Rule :=
  r.excluded.map (Rule.parse · .excluded) ++ r.included.map (Rule.parse · .included)

def collectIf (collect : Bool) (archive : Archive) : CommandM m Archive := do
  if !collect then return archive
  let (archive, _) ← orFail "Could not remove unused instruments"
    (fun e => e.message :: e.causes) archive.collect
  return archive

def strip (r : StripRequest) : CommandM m Unit := do
  let paths ← host.archivePaths r.inputs r.recursive
  match ← paths.foldlM (host.mergeFile r.policy) none with
  | none => throw { message := "No archives found to strip" }
  | some merged =>
    let (stripped, _) := merged.strip (decideByRules (rulesOf r)) {}
    let archive ← collectIf r.collect stripped
    if ← host.mayWrite r.output then
      orFail ("Could not write the archive to " ++ r.output) (fun fault => [fault.message])
        (← ExceptT.lift (host.write r.output archive.encode))
      host.tell ("Wrote " ++ r.output ++ " with " ++ toString archive.sequences.liveCount
        ++ " sequences")

/-! ## Timing -/

/-- The library that the sequences of a file would be published with. -/
def libraryName (path : String) : String := (Path.stem? path).getD "" ++ ".ncsflib"

def timeSequence (r : TimeRequest) (archive : Archive) (n : Nat) (entry : SequenceEntry) :
    CommandM m Unit := do
  let length ← orFail ("Could not time sequence " ++ toString n) (fun e => [e.message])
    (archive.sequenceLength n { loops := r.loops })
  host.tell (Archive.timeLine n entry length)
  if r.showTags then
    let fades : Fades := { ofLoop := r.fadeOfLoop, ofOneShot := r.fadeOfOneShot }
    (Archive.tagLines (Archive.publishedTags n entry (libraryName r.path) fades length)).forM
      host.tell

def timeArchive (r : TimeRequest) (archive : Archive) : CommandM m Unit :=
  archive.liveSequences.forM fun (n, entry) =>
    if r.sequences.isEmpty || r.sequences.contains n then host.timeSequence r archive n entry
    else pure ()

/-- Lengths are in the time of the sequence, so that the timeout has to make sense only. -/
def time (r : TimeRequest) : CommandM m Unit := do
  let _ ← orFail "Could not parse the timeout" (fun e => [e.message]) (Duration.parse r.timeout)
  (← host.loadArchives r.path r.policy).forM (host.timeArchive r)

/-! ## Running -/

def perform : Request → CommandM m Unit
  | .inspect r => host.inspect r
  | .strip r => host.strip r
  | .time r => host.time r

end Host

inductive Outcome where
  | done
  | stopped (stop : ArgumentStop)
  | failed (failure : Failure)
deriving DecidableEq

namespace Outcome

def exitCode : Outcome → Nat
  | done | stopped .help => 0
  | failed _ => 1
  | stopped .misuse => 2

/-- What a failure has to say. -/
def complaint : Outcome → String
  | failed failure => failure.text
  | _ => ""

end Outcome

def Host.run {m : Type → Type} [Monad m] (host : Host m) (arguments : List String) :
    m Outcome := do
  match Request.parse arguments with
  | .error stop => return .stopped stop
  | .ok request =>
    match ← (host.perform request).run with
    | .ok () => return .done
    | .error failure => return .failed failure

end SoundArchive
