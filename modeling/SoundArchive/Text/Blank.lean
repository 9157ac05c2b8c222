/-!
# Blanks and lines

Blanks are the characters with the Unicode property of white space.
-/

namespace SoundArchive.Text

def blanks : List (Nat × Nat) := [
  (0x09, 0x0D), (0x20, 0x20), (0x85, 0x85), (0xA0, 0xA0), (0x1680, 0x1680), (0x2000, 0x200A),
  (0x2028, 0x2029), (0x202F, 0x202F), (0x205F, 0x205F), (0x3000, 0x3000)]

def isBlank (c : Char) : Bool := blanks.any fun (first, last) => first ≤ c.toNat && c.toNat ≤ last

def trimEnd (cs : List Char) : List Char := (cs.reverse.dropWhile isBlank).reverse

/-- The text without the blanks at both ends. -/
def trim (cs : List Char) : List Char := trimEnd (cs.dropWhile isBlank)

/-- The first line and what is behind its end. A line ends at a line feed, or at the end of the
text, and a carriage return right before the line feed belongs to the end. -/
def firstLine (cs : List Char) : List Char × List Char :=
  let line := cs.takeWhile (· ≠ '\n')
  match cs.dropWhile (· ≠ '\n') with
  | [] => (line, [])
  | _ :: rest => (if line.getLast? = some '\r' then line.dropLast else line, rest)

theorem firstLine_length {c : Char} {cs : List Char} :
    (firstLine (c :: cs)).2.length < (c :: cs).length := by
  have h := (List.dropWhile_suffix (l := c :: cs) (· ≠ '\n')).length_le
  unfold firstLine
  split
  · simp
  · next heq => rw [heq] at h; simp at h ⊢; omega

/-- The lines of a text. Nothing behind the last line feed is no line. -/
def lines : List Char → List (List Char)
  | [] => []
  | c :: cs => (firstLine (c :: cs)).1 :: lines (firstLine (c :: cs)).2
termination_by cs => cs.length
decreasing_by exact firstLine_length

/-- What is in front of and behind the first `mark`. -/
def splitAt? (mark : Char) (cs : List Char) : Option (List Char × List Char) :=
  match cs.dropWhile (· ≠ mark) with
  | [] => none
  | _ :: rest => some (cs.takeWhile (· ≠ mark), rest)

end SoundArchive.Text
