/-!
# Arguments

The arguments of a command are options and operands. An option is given by a letter or by a
word, and letters can be joined. All that is behind a lone `--` is an operand.
-/

namespace SoundArchive

/-- Why the arguments are not those of a command. -/
inductive ArgumentStop where
  /-- Help or the version is asked for. -/
  | help
  | misuse
deriving DecidableEq

structure OptionForm where
  word : String
  letter : Option Char := none
  takesValue : Bool := false
  /-- The option may be given more than once. -/
  repeats : Bool := false
deriving DecidableEq

/-- What asks for help, or the version, in every place. -/
def helpForms : List OptionForm := [
  { word := "help", letter := some 'h' },
  { word := "version", letter := some 'V' }]

structure Arguments where
  operands : List String := []
  /-- The options in order, those that lack a value without one. -/
  options : List (OptionForm × Option String) := []
deriving DecidableEq

namespace Arguments

/-! ## Sorting -/

/-- What an argument is in its place. -/
structure Sorter where
  sorted : Arguments := {}
  /-- An option that the next argument may be the value of. -/
  pending : Option OptionForm := none
  /-- A lone `--` has come up. -/
  onlyOperands : Bool := false

def Sorter.operand (s : Sorter) (argument : String) : Sorter :=
  { s with sorted := { s.sorted with operands := s.sorted.operands ++ [argument] } }

def Sorter.option (s : Sorter) (form : OptionForm) (value : Option String) : Sorter :=
  { s with sorted := { s.sorted with options := s.sorted.options ++ [(form, value)] } }

/-- An option with what is joined to it. Without that, an option that takes a value waits for
the next argument. -/
def Sorter.given (s : Sorter) (form : OptionForm) (value : Option String) : Sorter :=
  match value with
  | some value => { s.option form (some value) with pending := none }
  | none => { s with pending := some form }.option form none

/-- What is behind a `=` at the start. -/
def afterEquals : List Char → List Char
  | '=' :: rest => rest
  | cs => cs

def find (forms : List OptionForm) (isMeant : OptionForm → Bool) :
    Except ArgumentStop OptionForm :=
  match helpForms.find? isMeant, forms.find? isMeant with
  | some _, _ => .error .help
  | none, some form => .ok form
  | none, none => .error .misuse

/-- Sorts an option given by a word, perhaps with `=` and a value. -/
def Sorter.word (s : Sorter) (forms : List OptionForm) (argument : List Char) :
    Except ArgumentStop Sorter :=
  let word := String.ofList (argument.takeWhile (· ≠ '='))
  match argument.dropWhile (· ≠ '=') with
  | [] => do
    let form ← find forms (·.word == word)
    if form.takesValue then return s.given form none
    return { s.option form none with pending := none }
  | _ :: value =>
    match forms.find? (·.word == word) with
    | some form =>
      if form.takesValue then .ok (s.given form (some (String.ofList value))) else .error .misuse
    | none => .error .misuse

/-- Sorts joined letters. The first that takes a value has the rest for one. -/
def Sorter.letters (s : Sorter) (forms : List OptionForm) : List Char → Except ArgumentStop Sorter
  | [] => .ok s
  | c :: rest => do
    let form ← find forms (·.letter == some c)
    if form.takesValue then
      return s.given form
        (if rest.isEmpty then none else some (String.ofList (afterEquals rest)))
    { s.option form none with pending := none }.letters forms rest

/-- A waiting option takes what does not look like an option itself. -/
def Sorter.value (s : Sorter) (argument : String) : Sorter :=
  match s.pending with
  | none => s.operand argument
  | some form =>
    { s with
      sorted := { s.sorted with
        options := s.sorted.options.dropLast ++ [(form, some argument)] }
      pending := none }

def Sorter.next (forms : List OptionForm) (s : Sorter) (argument : String) :
    Except ArgumentStop Sorter :=
  if s.onlyOperands then .ok (s.operand argument)
  else
    match argument.toList with
    | ['-', '-'] => .ok { s with onlyOperands := true }
    | '-' :: '-' :: word => s.word forms word
    | '-' :: c :: rest => s.letters forms (c :: rest)
    | _ => .ok (s.value argument)

/-! ## Checking -/

def values (a : Arguments) (form : OptionForm) : List String :=
  (a.options.filter (·.1 == form)).filterMap (·.2)

def count (a : Arguments) (form : OptionForm) : Nat := a.options.countP (·.1 == form)

/-- Options that take a value have one, and only those that repeat come up more than once. -/
def isProper (a : Arguments) (form : OptionForm) : Bool :=
  (form.repeats || a.count form ≤ 1)
    && (!form.takesValue || a.count form == 0 || !(a.values form).isEmpty)

/-- The arguments, if they are options of these forms and operands. -/
def parse (forms : List OptionForm) (arguments : List String) :
    Except ArgumentStop Arguments := do
  let s ← arguments.foldlM (Sorter.next forms) {}
  if forms.all s.sorted.isProper then return s.sorted else throw .misuse

/-! ## Using -/

def has (a : Arguments) (form : OptionForm) : Bool := a.count form ≠ 0

def value? (a : Arguments) (form : OptionForm) : Option String := (a.values form).head?

/-- A number below `bound`, which may have a plus sign. -/
def number? (bound : Nat) (text : String) : Option Nat :=
  let digits := match text.toList with
    | '+' :: rest => rest
    | cs => cs
  let n := digits.foldl (fun n c => n * 10 + (c.toNat - '0'.toNat)) 0
  if !digits.isEmpty && digits.all Char.isDigit && n < bound then some n else none

/-- The number that an option is given, or else `default`. -/
def numberOr (a : Arguments) (form : OptionForm) (bound default : Nat) :
    Except ArgumentStop Nat :=
  match a.value? form with
  | none => .ok default
  | some text => ((number? bound text).map .ok).getD (.error .misuse)

end Arguments

end SoundArchive
