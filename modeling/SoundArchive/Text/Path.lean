/-!
# Paths

A path is made of names with slashes in between. Empty names and single dots mean nothing, but
for a dot in front.
-/

namespace SoundArchive.Path

/-- The names of a path that mean something. -/
def names (path : String) : List String :=
  match path.splitOn "/" with
  | [] => []
  | first :: rest =>
    (if first.isEmpty then [] else [first]) ++ rest.filter fun name => name ≠ "" ∧ name ≠ "."

/-- The last name, if it is that of a file. -/
def fileName? (path : String) : Option String :=
  match (names path).getLast? with
  | some name => if name = "." ∨ name = ".." then none else some name
  | none => none

/-- A file name in front of and behind its last dot. A dot at its start does not count. -/
def splitExtension (name : String) : String × Option String :=
  let behind := name.toList.reverse.takeWhile (· ≠ '.')
  match name.toList.reverse.dropWhile (· ≠ '.') with
  | [] | [_] => (name, none)
  | _ :: front => (String.ofList front.reverse, some (String.ofList behind.reverse))

def stem? (path : String) : Option String := (fileName? path).map fun n => (splitExtension n).1

def extension? (path : String) : Option String :=
  (fileName? path).bind fun n => (splitExtension n).2

/-- Whether the path has this extension, whatever the case of its ASCII letters. -/
def hasExtension (path extension : String) : Bool :=
  match extension? path with
  | none => false
  | some e => e.toList.map Char.toLower == extension.toList.map Char.toLower

end SoundArchive.Path
