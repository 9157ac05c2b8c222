import SoundArchive.Text.UpperCase

/-!
# Wildcards

In a pattern `*` stands for any run of characters and `?` for any single one. Letters match
whatever their case: pattern and text are compared in upper case.

The matcher tries the part behind a star at one place of the text after the other. Once that
part is found up to the next star, it stays where it is: a later place could only leave less of
the text for the rest.
-/

namespace SoundArchive.Text

namespace Wildcard

/-- What came of matching a pattern at one place of the text. -/
inductive Attempt where
  | found
  /-- It does not match here, but may match further on. -/
  | notHere
  /-- It matches nowhere from here on. -/
  | never
deriving DecidableEq

def fits (p c : Char) : Bool := p == '?' || p == c

mutual

def attempt : (pattern text : List Char) → Attempt
  | [], [] => .found
  | [], _ :: _ => .notHere
  | p :: ps, text =>
    if p = '*' then (if search ps text then .found else .never)
    else match text with
      | [] => .never
      | c :: cs => if fits p c then attempt ps cs else .notHere
termination_by pattern text => (pattern.length, text.length, 0)

def search (pattern text : List Char) : Bool :=
  match attempt pattern text with
  | .found => true
  | .never => false
  | .notHere =>
    match text with
    | [] => false
    | _ :: cs => search pattern cs
termination_by (pattern.length, text.length, 1)

end

/-- Whether the whole text fits the pattern, both in the case that they are in. -/
def matchesExactly (pattern text : List Char) : Bool := attempt pattern text = .found

end Wildcard

def wildcardMatch (pattern text : String) : Bool :=
  Wildcard.matchesExactly (upper pattern) (upper text)

end SoundArchive.Text
