/-!
# Columns

Text in columns of a table. What does not fit into its column is written in full.
-/

namespace SoundArchive.Text

def blanksFor (width : Nat) (text : String) : String :=
  String.ofList (List.replicate (width - text.length) ' ')

/-- The text at the left of its column. -/
def atLeft (width : Nat) (text : String) : String := text ++ blanksFor width text

/-- The text at the right of its column. -/
def atRight (width : Nat) (text : String) : String := blanksFor width text ++ text

def numberAtRight (width n : Nat) : String := atRight width (toString n)

end SoundArchive.Text
