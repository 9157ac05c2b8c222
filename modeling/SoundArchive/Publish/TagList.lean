import SoundArchive.Text.Blank

/-!
# Tags

A tag list holds names with values in the order in which the names came up. Names are the same
if they differ in the case of ASCII letters only; a list keeps the spelling that came first.
-/

namespace SoundArchive

structure TagList where
  tags : List (String × String) := []
deriving DecidableEq

namespace TagList

/-- The name with its ASCII letters in lower case. -/
def folded (name : String) : String := String.ofList (name.toList.map Char.toLower)

def sameName (a b : String) : Bool := folded a == folded b

/-! ## Tags one by one -/

def get? (l : TagList) (name : String) : Option String :=
  (l.tags.find? fun t => sameName t.1 name).map (·.2)

def contains (l : TagList) (name : String) : Bool := l.tags.any fun t => sameName t.1 name

/-- Changes the value of the first tag called `name` by `change`, or appends `value`. -/
def upsert (name : String) (change : String → String) (value : String) :
    List (String × String) → List (String × String)
  | [] => [(name, value)]
  | t :: rest =>
    if sameName t.1 name then (t.1, change t.2) :: rest else t :: upsert name change value rest

/-- A tag that is there keeps its place, a new one goes to the end. -/
def set (l : TagList) (name value : String) : TagList :=
  { tags := upsert name (fun _ => value) value l.tags }

/-- Puts a line more into the value of a tag. -/
def extend (l : TagList) (name value : String) : TagList :=
  { tags := upsert name (· ++ "\n" ++ value) value l.tags }

def remove (l : TagList) (name : String) : TagList :=
  { tags := l.tags.eraseP fun t => sameName t.1 name }

def mergeFrom (l other : TagList) : TagList :=
  other.tags.foldl (fun l t => l.set t.1 t.2) l

/-! ## Text -/

/-- The name and the value on a line, if it has both. -/
def lineTag? (line : List Char) : Option (String × String) :=
  match Text.splitAt? '=' line with
  | none => none
  | some (name, value) =>
    let name := Text.trim name
    let value := Text.trim value
    if name.isEmpty || value.isEmpty then none
    else some (String.ofList name, String.ofList value)

/-- A name that comes up again continues its value on a new line. -/
def parse (text : String) : TagList :=
  (Text.lines text.toList).foldl (fun l line =>
    match lineTag? line with
    | some (name, value) => l.extend name value
    | none => l) {}

def toStrings (l : TagList) : List String := l.tags.map fun t => t.1 ++ "=" ++ t.2

/-- One line for each line of each value. -/
def toText (l : TagList) : String :=
  String.join (l.tags.flatMap fun t =>
    (Text.lines t.2.toList).map fun line => t.1 ++ "=" ++ String.ofList line ++ "\n")

end TagList

end SoundArchive
