import SoundArchive.Archive.File
import SoundArchive.CommandLine.Commands

/-!
# A host in memory

A desk holds files and folders, lines of input that are still to be read, and what was put out.
Paths on it start at its top. Nothing is known of the folders above, but that they are there.
-/

namespace SoundArchive

structure Desk where
  /-- Everything on the desk by the names that lead to it. Folders have no contents. -/
  things : List (List String × Option Bytes) := []
  input : List String := []
  output : String := ""
deriving DecidableEq

namespace FileFault

def missing : FileFault := ⟨"No such file or directory", some 2⟩

def alreadyThere : FileFault := ⟨"File exists", some 17⟩

def notFolder : FileFault := ⟨"Not a directory", some 20⟩

def isFolder : FileFault := ⟨"Is a directory", some 21⟩

def nameTooLong : FileFault := ⟨"File name too long", some 36⟩

def zeroByte : FileFault := ⟨"file name contained an unexpected NUL byte", none⟩

end FileFault

namespace Desk

/-! ## Places -/

/-- No name of a file or a folder has more bytes. -/
def maxNameLength : Nat := 255

/-- No path has more bytes. -/
def maxPathLength : Nat := 4095

/-- Whether the names lead to the top, or above it. -/
def isTop (names : List String) : Bool := names.all (· = "..")

def contentsOf (d : Desk) (names : List String) : PathContents :=
  if isTop names then .folder
  else
    match d.things.lookup names with
    | none => .nothing
    | some none => .folder
    | some (some data) => .file data

def isFolder (d : Desk) (names : List String) : Bool := d.contentsOf names = .folder

def isThere (d : Desk) (names : List String) : Bool := d.contentsOf names ≠ .nothing

/-- Where a name leads from a folder. -/
def step (d : Desk) (here : List String) (name : String) : Except FileFault (List String) :=
  if !d.isFolder here then .error .notFolder
  else if name = "" ∨ name = "." then .ok here
  else if name = ".." then .ok (if isTop here then here ++ [".."] else here.dropLast)
  else if name.utf8ByteSize > maxNameLength then .error .nameTooLong
  else if d.isThere (here ++ [name]) then .ok (here ++ [name])
  else .error .missing

/-- Whether a path may be asked for at all. -/
def checkPath (path : String) : Except FileFault Unit :=
  if path.toList.contains '\x00' then .error .zeroByte
  else if path.utf8ByteSize > maxPathLength then .error .nameTooLong
  else .ok ()

/-- Where a path leads. -/
def find (d : Desk) (path : String) : Except FileFault (List String) := do
  checkPath path
  if path = "" ∨ "/".isPrefixOf path then throw .missing
  (path.splitOn "/").foldlM d.step []

/-! ## Files -/

def thereAt (d : Desk) (path : String) : PathContents :=
  match d.find path with
  | .error _ => .nothing
  | .ok names => d.contentsOf names

def read (d : Desk) (path : String) : Except FileFault Bytes := do
  match d.contentsOf (← d.find path) with
  | .nothing => throw .missing
  | .folder => throw .isFolder
  | .file data => return data

def put (d : Desk) (names : List String) (contents : Option Bytes) : Desk :=
  { d with things := d.things.filter (·.1 ≠ names) ++ [(names, contents)] }

/-- Makes all folders on a path. A file in the way is met by itself at the end of the path, or once
a folder in front of it was made; otherwise on the way to a name behind it. -/
def makeFolders (d : Desk) (here : List String) (made : Bool) :
    List String → Except FileFault Desk
  | [] => .ok d
  | name :: rest =>
    match d.step here name with
    | .ok names =>
      if d.isFolder names then d.makeFolders names made rest
      else .error (if made ∨ rest.isEmpty then .alreadyThere else .notFolder)
    | .error fault =>
      if fault = .missing then (d.put (here ++ [name]) none).makeFolders (here ++ [name]) true rest
      else .error fault

/-- Puts a file into a folder that is there. What ends in a slash, or in dots, is a folder. -/
def putFile (d : Desk) (path : String) (data : Bytes) : Except FileFault Desk := do
  let names := ((path.splitOn "/").reverse.dropWhile (· = "")).reverse
  let folder ← names.dropLast.foldlM d.step []
  match names.getLast? with
  | none => throw .isFolder
  | some name =>
    if !d.isFolder folder then throw .notFolder
    if path.endsWith "/" ∨ name = "." ∨ name = ".." ∨ d.isFolder (folder ++ [name]) then
      throw .isFolder
    if name.utf8ByteSize > maxNameLength then throw .nameTooLong
    return d.put (folder ++ [name]) (some data)

def write (d : Desk) (path : String) (data : Bytes) : Except FileFault Desk := do
  if path = "" ∨ "/".isPrefixOf path then throw .missing
  let folders := (Path.names path).dropLast
  checkPath ("/".intercalate folders)
  let d ← d.makeFolders [] false folders
  checkPath path
  d.putFile path data

/-- The desk with a file and the folders around it. What cannot be there is left out. -/
def addFile (d : Desk) (path : String) (data : Bytes) : Desk := (d.write path data).toOption.getD d

/-! ## Searching -/

/-- The path of what is inside the folder at `path`. -/
def joined (path : String) (names : List String) : String :=
  (if path.endsWith "/" then path else path ++ "/") ++ "/".intercalate names

/-- The names that lead from a folder to things in it. -/
def inside (d : Desk) (folder : List String) (recursive : Bool) : List (List String) :=
  d.things.filterMap fun (names, _) =>
    let below := names.drop folder.length
    if folder.isPrefixOf names ∧ below ≠ [] ∧ below.head? ≠ some ".."
        ∧ (recursive ∨ below.length = 1)
    then some below else none

def contents (d : Desk) (path : String) (recursive : Bool) : List String :=
  match d.find path with
  | .error _ => []
  | .ok names =>
    path :: if d.isFolder names then (d.inside names recursive).map (joined path) else []

/-! ## The host -/

def host : Host (StateM Desk) where
  read path := do return (← get).read path
  write path data := do
    match (← get).write path data with
    | .ok d => set d; return .ok ()
    | .error fault => return .error fault
  isThere path := do return ((← get).find path).isOk
  contents path recursive := do return (← get).contents path recursive
  say line := modify fun d => { d with output := d.output ++ line ++ "\n" }
  answer := do
    let d ← get
    match d.input with
    | [] => return none
    | line :: rest => set { d with input := rest }; return some line

/-- How a command line ends, and what is on the desk then. -/
def run (d : Desk) (arguments : List String) : Outcome × Desk := (host.run arguments).run d

end Desk

end SoundArchive
