/-!
# Hexadecimal numbers in messages

Numbers are written in lower case, behind `0x`, and padded with zeros up to a width.
-/

namespace SoundArchive.Text

/-- The digits of `n`, at least `width` of them. -/
def hexDigits (n width : Nat) : String :=
  let digits := Nat.toDigits 16 n
  String.ofList (List.replicate (width - digits.length) '0' ++ digits)

def hex (n width : Nat) : String := "0x" ++ hexDigits n width

end SoundArchive.Text
